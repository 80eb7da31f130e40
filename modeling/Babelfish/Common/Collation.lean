import Mathlib.Data.Prod.Lex

/-!
# The collations and their order

The rows of `coll_infos` that `cmp_collation` reads.  A collation is stored in a `sql_variant` by
its index in the table.  The locale of the `bbf_unicode_general` collations is only known when the
server has read its setting, so it is a parameter.

* `cmpCollation_spec`: the comparison is the lexicographic order of four numbers of the rows.
-/

namespace Babelfish.Common

/-- `coll_info`, without what the comparison does not read. -/
structure CollInfo where
  collname : String
  lcid : Int
  ver : Int
  style : Int
  sortid : Int
deriving Inhabited

/-- A row without a sort id. -/
def plain (name : String) (lcid : Int) : CollInfo := ⟨name, lcid, 0, 196608, 0⟩

def three (name : String) (lcid : Int) : List CollInfo :=
  ["_ci_ai", "_ci_as", "_cs_as"].map fun suffix => plain (name ++ suffix) lcid

def four (name : String) (lcid : Int) : List CollInfo :=
  ["_ci_ai", "_ci_as", "_cs_ai", "_cs_as"].map fun suffix => plain (name ++ suffix) lcid

variable (lcid : Int)

def collInfos : List CollInfo :=
  three "arabic" 1025 ++ [⟨"bbf_unicode_bin2", 1033, 0, 196608, 54⟩] ++
    four "bbf_unicode_cp1250" 1045 ++ four "bbf_unicode_cp1251" 1049 ++
    four "bbf_unicode_cp1253" 1032 ++ four "bbf_unicode_cp1254" 1055 ++
    four "bbf_unicode_cp1255" 1037 ++ four "bbf_unicode_cp1256" 1025 ++
    four "bbf_unicode_cp1257" 1061 ++ four "bbf_unicode_cp1258" 1066 ++
    [⟨"bbf_unicode_cp1_ci_ai", 1033, 0, 196608, 54⟩,
    ⟨"bbf_unicode_cp1_ci_as", 1033, 0, 196608, 52⟩,
    ⟨"bbf_unicode_cp1_cs_ai", 1033, 0, 196608, 51⟩,
    ⟨"bbf_unicode_cp1_cs_as", 1033, 0, 196608, 51⟩] ++ four "bbf_unicode_cp874" 1054 ++
    four "bbf_unicode_general" lcid ++ [plain "bbf_unicode_general_pref_cs_as" lcid,
    plain "bbf_unicode_pref_cp1250_cs_as" 1045, plain "bbf_unicode_pref_cp1251_cs_as" 1049,
    plain "bbf_unicode_pref_cp1253_cs_as" 1032, plain "bbf_unicode_pref_cp1254_cs_as" 1055,
    plain "bbf_unicode_pref_cp1255_cs_as" 1037, plain "bbf_unicode_pref_cp1256_cs_as" 1025,
    plain "bbf_unicode_pref_cp1257_cs_as" 1061, plain "bbf_unicode_pref_cp1258_cs_as" 1066,
    ⟨"bbf_unicode_pref_cp1_cs_as", 1033, 0, 196608, 51⟩,
    plain "bbf_unicode_pref_cp874_cs_as" 1054] ++ three "chinese_prc" 2052 ++
    three "cyrillic_general" 1049 ++ three "estonian" 1061 ++ three "finnish_swedish" 1035 ++
    three "french" 1036 ++ three "greek" 1032 ++ three "hebrew" 1037 ++ three "japanese" 1041 ++
    three "korean_wansung" 1042 ++ three "modern_spanish" 3082 ++ three "mongolian" 1104 ++
    three "polish" 1045 ++ three "thai" 1054 ++ three "traditional_spanish" 1034 ++
    three "turkish" 1055 ++ three "ukrainian" 1058 ++ three "vietnamese" 1066

def totalCollCount : Nat := 110

/-- `coll_infos[coll]` -/
def collInfo (coll : Nat) : CollInfo := (collInfos lcid).getD coll default

def cmpCollation (coll1 coll2 : Nat) : Int :=
  let info1 := collInfo lcid coll1
  let info2 := collInfo lcid coll2
  if info1.lcid < info2.lcid then -1
  else if info1.lcid > info2.lcid then 1
  else if info1.ver < info2.ver then -1
  else if info1.ver > info2.ver then 1
  else if info1.style < info2.style then -1
  else if info1.style > info2.style then 1
  else if info1.sortid < info2.sortid then -1
  else if info1.sortid > info2.sortid then 1
  else 0

/-- What a collation is sorted by. -/
def collationKey (coll : Nat) : Int ×ₗ Int ×ₗ Int ×ₗ Int :=
  let info := collInfo lcid coll
  toLex (info.lcid, toLex (info.ver, toLex (info.style, info.sortid)))

/-- **The comparison is the lexicographic order.** -/
theorem cmpCollation_spec (c d : Nat) :
    (cmpCollation lcid c d < 0 ↔ collationKey lcid c < collationKey lcid d) ∧
    (0 < cmpCollation lcid c d ↔ collationKey lcid d < collationKey lcid c) := by
  simp only [cmpCollation, collationKey, Prod.Lex.toLex_lt_toLex, gt_iff_lt]
  split_ifs <;> omega

end Babelfish.Common

import Babelfish.PLtsql.Refinement
import Babelfish.Tds.BulkLoadEnd
import Babelfish.Tds.NumericRecv
import Babelfish.Common.DatetimeOffset
import Babelfish.Common.SqlVariantOrder
import Babelfish.Money.Multiply
import Babelfish.Money.PrintText
import Babelfish.Common.DateDiffExact
import Babelfish.Common.DatetimeVarbinary
import Babelfish.Tsql.ApplockInvariant
import Babelfish.Money.Hash
import Babelfish.Tds.PreLogin
import Babelfish.Tsql.ParseCacheRuns
import Babelfish.Tsql.FormatMessage
import Babelfish.Tsql.TableVariableMvcc
import Babelfish.Tsql.ForJsonPath
import Babelfish.Tsql.ForJsonAutoRows
import Babelfish.Common.SpatialRoundTrip
import Babelfish.Tds.Login7
import Babelfish.Tds.TokenLengths
import Babelfish.Tds.PrintTup
import Babelfish.Tds.DoneStream
import Babelfish.Tsql.ProbinTypmods
import Babelfish.Tsql.QueryMutator
import Babelfish.Tsql.BulkCopyRows
import Babelfish.Common.SpatialFill
import Babelfish.Tsql.NumericTypmod
import Babelfish.Tsql.Datepart
import Babelfish.Tsql.Partition
import Babelfish.Tsql.ScopeIdentity
import Babelfish.Common.VarbinaryCasts
import Babelfish.Tsql.ParseCacheRead
import Babelfish.Common.DateAdd
import Babelfish.Common.SqlVariantMetaData
import Babelfish.Tsql.ApplockSession
import Babelfish.Common.CleanInput

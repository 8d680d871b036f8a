import CloudManager.Lib.Runs
import CloudManager.Lib.RedisKey
import CloudManager.Framework.RedisLock
import CloudManager.Framework.RedisLockSafety
import CloudManager.Dubbo.Sharding
import CloudManager.Lib.Wildcard
import CloudManager.Shiro.RedisCache
import CloudManager.Shiro.Kickout
import CloudManager.Shiro.RedisSimpleSession
import CloudManager.Shiro.SessionDAO
import CloudManager.Framework.BaseEntity
import CloudManager.Framework.PrimaryKeys
import CloudManager.Shiro.Revocation
import CloudManager.Framework.Paging
import CloudManager.Lib.JavaString
import CloudManager.Lib.LinkedHashMap
import CloudManager.Lib.Traced
import CloudManager.Shiro.FilterChains
import CloudManager.Commons.TableInfoKeeper
import CloudManager.Commons.InstanceListener
import CloudManager.Commons.ChangeCapture
import CloudManager.Commons.SnowFlake
import CloudManager.Framework.PageWindows
import CloudManager.Shiro.RetryLimit
import CloudManager.Shiro.KickoutRace
import CloudManager.Shiro.LostUpdate
import CloudManager.Shiro.Liveness
import CloudManager.Commons.Discovery
import CloudManager.Framework.InsertScript
import CloudManager.Framework.InsertProviders
import CloudManager.Lib.JavaText
import CloudManager.Framework.PageSql
import CloudManager.Framework.PageProcess
import CloudManager.Lib.Scan
import CloudManager.Lib.Substitution
import CloudManager.Lib.Sequences
import CloudManager.Lib.Grouping
import CloudManager.Framework.Excel.Sheet
import CloudManager.Framework.Excel.Import
import CloudManager.Rpc.Client
import CloudManager.Rpc.Matching
import CloudManager.Rpc.Waiting
import CloudManager.Rpc.Outcome
import CloudManager.Gateway.Oauth2
import CloudManager.Atomikos.Tcc
import CloudManager.Lib.Executions
import CloudManager.Stream.RocketConsumer
import CloudManager.Framework.Excel.Attributes
import CloudManager.Framework.Excel.Columns
import CloudManager.Framework.Excel.Retention
import CloudManager.Framework.Excel.Beans
import CloudManager.Framework.Excel.Defaults
import CloudManager.Framework.RedisLockAttempt
import CloudManager.Shiro.RetrySequence
import CloudManager.Framework.PageStatements
import CloudManager.Commons.ConnectionPool
import CloudManager.Commons.ColumnRefresh
import CloudManager.Commons.CaptureRuns
import CloudManager.Commons.DdlStatements
import CloudManager.Commons.RocketSender
import CloudManager.Framework.PropertyPlaceholder
import CloudManager.Framework.PageReading
import CloudManager.Framework.PagePieces
import CloudManager.Framework.PageMarkers
import CloudManager.Framework.PageKept
import CloudManager.Lib.Rotation
import CloudManager.Rpc.Ribbons
import CloudManager.Lib.Decimal
import CloudManager.Dubbo.NumberedTargets
import CloudManager.Framework.ArrayTypeHandlers
import CloudManager.Commons.StringToMap
import CloudManager.Commons.ScanPackage
import CloudManager.Framework.FieldUpdate
import CloudManager.Generator.BeanNames
import CloudManager.Commons.ResultSets
import CloudManager.Commons.RowKeys
import CloudManager.Commons.RowObjects
import CloudManager.Commons.JoinedRows
import CloudManager.Commons.OrderedRows
import CloudManager.Shiro.Base64
import CloudManager.Shiro.StatelessTokens
import CloudManager.Shiro.Uuid
import CloudManager.Shiro.NodeKeys
import CloudManager.Rocket.ListenerContainer
import CloudManager.Framework.RedisSerializer
import CloudManager.Rpc.Connections

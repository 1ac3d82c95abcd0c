import UrlShortener.General.Run
import UrlShortener.General.Watch
import UrlShortener.General.Machine
import UrlShortener.General.Amortized
import UrlShortener.General.Completion
import UrlShortener.General.Allowance
import UrlShortener.General.Windows
import UrlShortener.General.SingleWriter
import UrlShortener.General.Conservation
import UrlShortener.General.BitFields
import UrlShortener.General.Recency
import UrlShortener.General.Numerals
import UrlShortener.General.PathTemplates
import UrlShortener.General.Labels
import UrlShortener.General.Patterns
import UrlShortener.General.IpAddresses
import UrlShortener.General.Markup
import UrlShortener.General.Tables
import UrlShortener.General.OrderStatistics
import UrlShortener.General.Rejection
import UrlShortener.General.Rounding
import UrlShortener.General.RowLocks
import UrlShortener.General.RealTime
import UrlShortener.General.Draining
import UrlShortener.Limiter
import UrlShortener.LimiterPolicy
import UrlShortener.LimiterClocks
import UrlShortener.LimiterRedis
import UrlShortener.LimiterQuota
import UrlShortener.LimiterTransactions
import UrlShortener.Breaker
import UrlShortener.BreakerCallers
import UrlShortener.BreakerProbe
import UrlShortener.BreakerOutage
import UrlShortener.EnforceLimit
import UrlShortener.RetryAfter
import UrlShortener.ClientIsolation
import UrlShortener.Snowflake
import UrlShortener.ClockJumps
import UrlShortener.CodeAllocator
import UrlShortener.Codes
import UrlShortener.CodeOrder
import UrlShortener.SnowflakeAllocation
import UrlShortener.RandomAllocation
import UrlShortener.Routes
import UrlShortener.Store
import UrlShortener.LruCache
import UrlShortener.LruHistory
import UrlShortener.SingleFlight
import UrlShortener.FlightCallers
import UrlShortener.Invalidation
import UrlShortener.InvalidationDelivery
import UrlShortener.InvalidationCursor
import UrlShortener.HitCounter
import UrlShortener.HitLoss
import UrlShortener.LinkConnections
import UrlShortener.FailedBatch
import UrlShortener.RefusedCreate
import UrlShortener.PgLinkStore
import UrlShortener.PgTimestamps
import UrlShortener.Abuse
import UrlShortener.UrlHost
import UrlShortener.Reputation
import UrlShortener.HostSpellings
import UrlShortener.PrivateHosts
import UrlShortener.InterstitialPage
import UrlShortener.Requests
import UrlShortener.ResolveMoves
import UrlShortener.Deployment
import UrlShortener.DeploymentSteps
import UrlShortener.DeploymentEffect
import UrlShortener.DeploymentSound
import UrlShortener.Provenance
import UrlShortener.Expiry
import UrlShortener.ResolveProgress
import UrlShortener.Takedowns
import UrlShortener.FlightLeaders
import UrlShortener.FlightOutcomes
import UrlShortener.OneRead
import UrlShortener.Stampede
import UrlShortener.InvalidationRace
import UrlShortener.CreateRecords
import UrlShortener.ReadYourCreate
import UrlShortener.Destinations
import UrlShortener.Interstitials
import UrlShortener.Sequential
import UrlShortener.SequentialResolve
import UrlShortener.Sweep
import UrlShortener.PgSessions
import UrlShortener.PgLinearizable
import UrlShortener.PgSweeps
import UrlShortener.PgProgress
import UrlShortener.BackendAgreement
import UrlShortener.GuardedChecks
import UrlShortener.FailOpenCounters
import UrlShortener.InvalidationPoller
import UrlShortener.General.Percentiles
import UrlShortener.OpenLoop
import UrlShortener.RedisClients
import UrlShortener.ReissuedCodes
import UrlShortener.CountedRequests
import UrlShortener.PublishedLinks

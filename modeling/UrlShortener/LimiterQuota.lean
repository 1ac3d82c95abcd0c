import UrlShortener.LimiterRedis

namespace UrlShortener
namespace RedisStore
open Machine SqliteStore Allowance

/-- The calls of one key with their decisions, as Redis made them. -/
def ledgerOf (expiry : KeyExpiry) (db : RedisDb) (key : String) (calls : List Call) :
    List (Call × Decision) :=
  (transcript (synced expiry) db calls).filter (·.1.key = key)

theorem ledgerOf_cell (expiry : KeyExpiry) (db : RedisDb) (key : String) (calls : List Call) :
    ledgerOf expiry db key calls =
      transcript (syncedCell expiry) (db key) (calls.filter (·.key = key)) :=
  keyed_transcript (syncedCell expiry) Call.key db calls key

end RedisStore
end UrlShortener

import Ezcap.Library.JsonSchema

/-! The format of requests that the protocol publishes, from `daemon_request.schema.json`. -/

namespace Ezcap.Protocol

open StdString

def redactionSchema : JsonSchema :=
  .object [] (some 8)
    [(cstr "mode", .string (some [cstr "hostname-only", cstr "query-string-removal",
        cstr "full-hostname", cstr "domain-hash", cstr "domain-mask"]) none none),
     (cstr "sensitive_domains", .array (some 256) (.string none none (some 253)))]

def persistenceSchema : JsonSchema :=
  .object [] (some 4)
    [(cstr "enabled", .boolean),
     (cstr "retention_seconds", .integer none (some 60) (some 31536000))]

def policySchema : JsonSchema :=
  .object [] (some 8)
    [(cstr "metadata_only", .boolean), (cstr "redaction", redactionSchema),
     (cstr "persistence", persistenceSchema)]

def paramsSchema : JsonSchema :=
  .object [] (some 8)
    [(cstr "event_types", .array (some 8) (.string (some [cstr "connection", cstr "dns",
        cstr "navigation", cstr "process", cstr "status", cstr "error"]) none none)),
     (cstr "subscription_id", .string none none (some 64)),
     (cstr "policy", policySchema),
     (cstr "reason", .string none none (some 128))]

def daemonRequestSchema : JsonSchema :=
  .object [cstr "protocol_version", cstr "operation", cstr "request_id"] none
    [(cstr "protocol_version", .integer (some 1) none none),
     (cstr "operation", .string (some [cstr "hello", cstr "get_status", cstr "subscribe",
        cstr "unsubscribe", cstr "set_policy", cstr "get_policy", cstr "shutdown"]) none none),
     (cstr "request_id", .string none (some 1) (some 64)),
     (cstr "params", paramsSchema)]

end Ezcap.Protocol

import TablePeek.AccessLog.Generator
import TablePeek.Table

set_option autoImplicit false

namespace TablePeek

structure AccessRecord where
  accountId : Int64
  clientIp : String
  method : String
  path : String
  statusCode : Int32
  latencyMs : Int64
  userAgent : String
  timestamp : Int64
deriving DecidableEq, Repr

namespace AccessLog

-- 14 August 2025, midnight, in milliseconds since the start of 1970.
def baseTime : Int := 1755129600000

def methods : List String := ["GET", "GET", "GET", "POST", "PUT", "DELETE"]

def paths : List String := ["/v1/users", "/v1/invoices", "/v1/usage", "/v1/accounts/me"]

def statusCodes : List Int32 := [200, 200, 200, 200, 201, 204, 400, 401, 404, 500]

def userAgents : List String := ["curl/8.7.1", "Mozilla/5.0", "usage-client/0.1"]

def address (a b : Nat) : String := String.ofList ("10.0.".toList ++ Digits.ofNat a ++ '.' :: Digits.ofNat b)

def latency (g : Generator) : Nat × Generator :=
  let (base, g) := g.below 180
  let (slow, g) := g.below 20
  (if slow = 0 then 20 + base + 800 else 20 + base, g)

-- Ten numbers are drawn for a record, in this order.
def record (index : Nat) (g : Generator) : AccessRecord × Generator :=
  let (account, g) := g.below 5
  let (third, g) := g.below 4
  let (fourth, g) := g.below 254
  let (method, g) := g.pick "" methods
  let (path, g) := g.pick "" paths
  let (status, g) := g.pick 0 statusCodes
  let (latency, g) := latency g
  let (agent, g) := g.pick "" userAgents
  let (offset, g) := g.below 1000
  ({ accountId := Int64.ofNat (1 + account)
     clientIp := address third (1 + fourth)
     method
     path
     statusCode := status
     latencyMs := Int64.ofNat latency
     userAgent := agent
     timestamp := Int64.ofInt (baseTime + index * 1500 + offset) }, g)

def recordsFrom (index : Nat) : Nat → Generator → List AccessRecord
  | 0, _ => []
  | rows + 1, g =>
    let (r, g) := record index g
    r :: recordsFrom (index + 1) rows g

def records (rows : Nat) (seed : UInt64) : List AccessRecord := recordsFrom 0 rows ⟨seed⟩

def schema : Schema :=
  [⟨"account_id", .int64, false⟩, ⟨"client_ip", .text, false⟩, ⟨"method", .text, false⟩,
   ⟨"path", .text, false⟩, ⟨"status_code", .int32, false⟩, ⟨"latency_ms", .int64, false⟩,
   ⟨"user_agent", .text, false⟩, ⟨"timestamp", .timestamp, false⟩]

def columns (rs : List AccessRecord) : List Column :=
  [⟨.int64, rs.map fun r => some r.accountId⟩, ⟨.text, rs.map fun r => some r.clientIp⟩,
   ⟨.text, rs.map fun r => some r.method⟩, ⟨.text, rs.map fun r => some r.path⟩,
   ⟨.int32, rs.map fun r => some r.statusCode⟩, ⟨.int64, rs.map fun r => some r.latencyMs⟩,
   ⟨.text, rs.map fun r => some r.userAgent⟩, ⟨.timestamp, rs.map fun r => some r.timestamp⟩]

theorem columns_hold (rs : List AccessRecord) : schema.Holds rs.length (columns rs) := by
  have fits (name : String) (type : ColumnType) (entry : AccessRecord → type.Entry) :
      Column.Fits rs.length ⟨name, type, false⟩ ⟨type, rs.map fun r => some (entry r)⟩ :=
    ⟨rfl, List.length_map _, fun listed => by simp at listed⟩
  exact .cons (fits _ _ _) (.cons (fits _ _ _) (.cons (fits _ _ _) (.cons (fits _ _ _) (.cons (fits _ _ _)
    (.cons (fits _ _ _) (.cons (fits _ _ _) (.cons (fits _ _ _) .nil)))))))

-- All rows are in one batch; that a column can hold no more than 2 GiB of text is left out.
def table (rows : Nat) (seed : UInt64) : Table :=
  let rs := records rows seed
  ⟨schema, [⟨schema, rs.length, columns rs, columns_hold rs⟩]⟩

def emptyTable : Table := ⟨schema, []⟩

end AccessLog

end TablePeek

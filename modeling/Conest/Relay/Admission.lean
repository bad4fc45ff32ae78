import Conest.Lib.Machine
import Conest.Lib.RateMap
import Conest.Relay.Config

/-!
# Admission: the rate limits of the relay

`allowRequestBanning` is the general limit, with its soft bans, and `allowStore` the heavier
budget for stores and datagrams; the two maps behind them are pruned under one shared timestamp
(`pruneDue`). `admission` is the machine of these calls as `handle_request_from` makes them: a
request asks the general limit first, and what passes it and turns out to be heavy is charged to
the second one later, so that the calls of requests in flight interleave. Each call reads the clock
once and is atomic.
-/

open Lib

namespace Conest
namespace Relay

/-! ### The maps -/

variable {bans : FMap String BanEntry}

/-- Requests of one address in the current minute. -/
abbrev RateBucket := Window ℕ

/-- What a store window counts: stores, and UDP requests, and the bytes stored. -/
structure StoreUse where
  count : ℕ
  bytes : ℕ
deriving DecidableEq, Repr

/-- Stores, and UDP requests, of one address in the current minute. -/
abbrev StoreWindow := Window StoreUse

/-- The soft ban of a peer: until when, and its violations in a row. -/
structure BanEntry where
  bannedUntilMillis : ℕ
  consecutiveViolations : ℕ
deriving DecidableEq, Repr

/-- How a request reached the relay: a datagram from an address, whose source can be forged, or a
TCP or HTTP request of a peer. -/
inductive Transport where
  | datagram (address : String)
  | stream (peer : String)
deriving DecidableEq, Repr

/-- What `handle_request_from` learns from the bytes of a request: whether it is a store, and
whether it carries the cookie of its address, which only datagrams need. -/
structure Parsed where
  store : Bool
  cookieValid : Bool
deriving DecidableEq, Repr

/-- A request: its number, how it came, its length and what its bytes parse to, if they do. -/
structure Incoming where
  number : ℕ
  transport : Transport
  bytesRead : ℕ
  parsed : Option Parsed
deriving DecidableEq, Repr

/-- The prefix of the keys that datagrams are counted under. -/
def udpKey : String := "udp:"

namespace Incoming

/-- Whether the request is a datagram. -/
def isDatagram (req : Incoming) : Bool :=
  match req.transport with
  | .datagram _ => true
  | .stream _ => false

/-- The key the request is counted under. -/
def peer (req : Incoming) : String :=
  match req.transport with
  | .datagram address => udpKey ++ address
  | .stream peer => peer

/-- `heavy`: whether the request, once past the general limit, is charged to the second budget. A
datagram gets that far with its cookie. -/
def heavy (req : Incoming) : Bool :=
  match req.parsed with
  | none => false
  | some parsed => if req.isDatagram then parsed.cookieValid else parsed.store

/-- `stored_bytes`. -/
def storedBytes (req : Incoming) : ℕ :=
  match req.parsed with
  | some parsed => if parsed.store then req.bytesRead else 0
  | none => 0

end Incoming

/-- What admission keeps of a running relay, with the requests that passed the general limit and
are still to be charged. -/
structure AdmissionState where
  rateBuckets : RateMap ℕ
  storeWindows : RateMap StoreUse
  bannedPeers : FMap String BanEntry
  ratesPrunedAt : ℕ
  waiting : List Incoming

/-- A relay just started. -/
def AdmissionState.initial : AdmissionState where
  rateBuckets := FMap.empty
  storeWindows := FMap.empty
  bannedPeers := FMap.empty
  ratesPrunedAt := 0
  waiting := []

section Calls

variable (cfg : RelayConfig)

/-- The rules of `rate_buckets`. -/
def bucketRules : RateRules ℕ where
  cap := cfg.maxRateKeys
  fresh := 0
  resetAfter := 60000
  dropAfter := 120000
  reset_le_drop := by decide

/-- The rules of `store_windows`. -/
def windowRules : RateRules StoreUse where
  cap := cfg.maxRateKeys
  fresh := { count := 0, bytes := 0 }
  resetAfter := 60000
  dropAfter := 120000
  reset_le_drop := by decide

/-- One more request in a bucket. -/
def spendRequest (count : ℕ) : Option ℕ :=
  if cfg.maxRequestsPerMinute ≤ count then none else some (count + 1)

/-- One more store of `bytes` in a window. -/
def spendStore (bytes : ℕ) (used : StoreUse) : Option StoreUse :=
  if cfg.maxStoresPerMinute ≤ used.count ∨
      cfg.maxStoreBytesPerMinute < saturatingAdd used.bytes bytes then none
  else some { count := used.count + 1, bytes := saturatingAdd used.bytes bytes }

/-- `prune_due`: at most once a second; a call that finds it due is the one that prunes. -/
def pruneDue (prunedAt now : ℕ) : Bool := decide (1000 ≤ now - prunedAt)

/-- `rates_pruned_at` after a call. -/
def prunedAtAfter (prunedAt now : ℕ) : ℕ := if pruneDue prunedAt now then now else prunedAt

/-- The map a call works on: pruned if it is due. -/
def pruneIfDue {β : Type} (rules : RateRules β) (m : RateMap β) (prunedAt now : ℕ) : RateMap β :=
  if pruneDue prunedAt now then RateMap.prune rules m now else m

/-- Which ban entries `allow_request_banning` retains: a ban that runs, and a tally of violations
that never led to one. -/
def keepBan (now : ℕ) (entry : BanEntry) : Bool :=
  if now < entry.bannedUntilMillis then true
  else if 0 < entry.bannedUntilMillis then false
  else decide (0 < entry.consecutiveViolations)

/-- The bans after the sweep of a call. -/
def sweepBans (bans : FMap String BanEntry) (now : ℕ) : FMap String BanEntry :=
  bans.retain fun _ entry => keepBan now entry

/-- `u32::saturating_add(1)`. -/
def saturatingSucc (n : ℕ) : ℕ := min (n + 1) (2 ^ 32 - 1)

/-- `note_rate_violation`. -/
def noteRateViolation (bans : FMap String BanEntry) (peer : String) (now : ℕ) :
    FMap String BanEntry :=
  let entry := (bans.get peer).getD { bannedUntilMillis := 0, consecutiveViolations := 0 }
  let violations := saturatingSucc entry.consecutiveViolations
  bans.insert peer
    { bannedUntilMillis :=
        if cfg.softBanThreshold ≤ violations then saturatingAdd now cfg.softBanMillis
        else entry.bannedUntilMillis
      consecutiveViolations := violations }

/-- `note_rate_compliance`: it clears the tally of a peer with no ban in flight. -/
def noteRateCompliance (bans : FMap String BanEntry) (peer : String) : FMap String BanEntry :=
  match bans.get peer with
  | some entry =>
    if entry.bannedUntilMillis = 0 then
      bans.insert peer { entry with consecutiveViolations := 0 }
    else bans
  | none => bans

/-- Whether the peer is banned at `now`. -/
def banned (bans : FMap String BanEntry) (peer : String) (now : ℕ) : Bool :=
  ((sweepBans bans now).get peer).any fun entry => decide (now < entry.bannedUntilMillis)

/-- The bans after a request that was not banned: a refusal over the budget counts as a violation,
unless `ban` is off; a grant clears the tally. -/
def bansAfter (bans : FMap String BanEntry) (peer : String) (ban : Bool) (now : ℕ) :
    Verdict → FMap String BanEntry
  | .full => bans
  | .overBudget => if ban then noteRateViolation cfg bans peer now else bans
  | .granted => noteRateCompliance bans peer

/-- `allow_request_banning`. -/
def allowRequestBanning (st : AdmissionState) (peer : String) (ban : Bool) (now : ℕ) :
    AdmissionState × Bool :=
  let bans := sweepBans st.bannedPeers now
  if banned st.bannedPeers peer now then ({ st with bannedPeers := bans }, false)
  else
    let charged := RateMap.charge (bucketRules cfg)
      (pruneIfDue (bucketRules cfg) st.rateBuckets st.ratesPrunedAt now) (spendRequest cfg) peer now
    ({ st with
        bannedPeers := bansAfter cfg bans peer ban now charged.2
        ratesPrunedAt := prunedAtAfter st.ratesPrunedAt now
        rateBuckets := charged.1 }, charged.2 == .granted)

/-- `allow_store`. -/
def allowStore (st : AdmissionState) (peer : String) (bytes now : ℕ) : AdmissionState × Bool :=
  let charged := RateMap.charge (windowRules cfg)
    (pruneIfDue (windowRules cfg) st.storeWindows st.ratesPrunedAt now) (spendStore cfg bytes) peer
    now
  ({ st with
      ratesPrunedAt := prunedAtAfter st.ratesPrunedAt now
      storeWindows := charged.1 }, charged.2 == .granted)

end Calls

/-! ### The machine -/

/-- A call of a request in flight: it asks the general limit, or is charged to the second
budget. -/
inductive Call where
  | ask (req : Incoming) (now : ℕ)
  | charge (req : Incoming) (now : ℕ)
deriving DecidableEq, Repr

namespace Call

/-- The request a call is made for. -/
def req : Call → Incoming
  | ask req _ => req
  | charge req _ => req

/-- The clock reading of a call. -/
def now : Call → ℕ
  | ask _ now => now
  | charge _ now => now

end Call

/-- One call, and its decision. A request whose line is too long asks for nothing, and a request
is charged only while it waits for that. -/
def AdmissionState.call (cfg : RelayConfig) (st : AdmissionState) :
    Call → AdmissionState × Option Bool
  | .ask req now =>
    if cfg.maxLineBytes < req.bytesRead then (st, none)
    else
      let asked := allowRequestBanning cfg st req.peer (!req.isDatagram) now
      ({ asked.1 with
          waiting := if asked.2 && req.heavy then req :: asked.1.waiting else asked.1.waiting },
        some asked.2)
  | .charge req now =>
    if req ∈ st.waiting then
      let charged := allowStore cfg st req.peer req.storedBytes now
      ({ charged.1 with waiting := charged.1.waiting.erase req }, some charged.2)
    else (st, none)

/-- Admission as a machine. -/
def admission (cfg : RelayConfig) : Machine AdmissionState Call (Option Bool) where
  step st call := st.call cfg call

/-! ### What a call leaves alone -/

section Frame

variable {cfg : RelayConfig} {st : AdmissionState} {peer k : String} {ban : Bool} {bytes now : ℕ}

@[simp] theorem allowRequestBanning_storeWindows :
    (allowRequestBanning cfg st peer ban now).1.storeWindows = st.storeWindows := by
  unfold allowRequestBanning
  split <;> rfl

@[simp] theorem allowRequestBanning_waiting :
    (allowRequestBanning cfg st peer ban now).1.waiting = st.waiting := by
  unfold allowRequestBanning
  split <;> rfl

theorem noteRateViolation_get_of_ne (h : k ≠ peer) :
    (noteRateViolation cfg bans peer now).get k = bans.get k := by
  simp [noteRateViolation, h]

theorem noteRateCompliance_get_of_ne (h : k ≠ peer) :
    (noteRateCompliance bans peer).get k = bans.get k := by
  unfold noteRateCompliance
  split
  · split
    · simp [h]
    · rfl
  · rfl

theorem bansAfter_get_of_ne {verdict : Verdict} (h : k ≠ peer) :
    (bansAfter cfg bans peer ban now verdict).get k = bans.get k := by
  cases verdict with
  | full => rfl
  | overBudget =>
    cases ban with
    | true => exact noteRateViolation_get_of_ne h
    | false => rfl
  | granted => exact noteRateCompliance_get_of_ne h

theorem allowRequestBanning_bans_of_ne (h : k ≠ peer) :
    (allowRequestBanning cfg st peer ban now).1.bannedPeers.get k =
      (sweepBans st.bannedPeers now).get k := by
  unfold allowRequestBanning
  split
  · rfl
  · exact bansAfter_get_of_ne h

theorem allowRequestBanning_buckets_of_ne (h : k ≠ peer) :
    (allowRequestBanning cfg st peer ban now).1.rateBuckets.get k = st.rateBuckets.get k ∨
      (allowRequestBanning cfg st peer ban now).1.rateBuckets.get k =
        (pruneIfDue (bucketRules cfg) st.rateBuckets st.ratesPrunedAt now).get k := by
  unfold allowRequestBanning
  split
  · exact .inl rfl
  · exact .inr (RateMap.charge_get_of_ne h)

theorem allowStore_windows_of_ne (h : k ≠ peer) :
    (allowStore cfg st peer bytes now).1.storeWindows.get k =
      (pruneIfDue (windowRules cfg) st.storeWindows st.ratesPrunedAt now).get k :=
  RateMap.charge_get_of_ne h

end Frame

end Relay
end Conest

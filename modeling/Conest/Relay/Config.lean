import Mathlib

/-!
# Configuration and address keys of the relay

The limits the relay runs under and the small pure functions on which storage and admission both
rest: saturating arithmetic on `u64`, the mailbox id check, and the grouping of address keys.

`RelayConfig` carries the checks of `RelayConfig::from_env_and_args` as fields, so a model that
quantifies over configurations quantifies over those the relay starts with.
-/

namespace Conest
namespace Relay

/-- `u64::MAX`. -/
def u64Max : ℕ := 2 ^ 64 - 1

/-- The largest SQLite integer, `i64::MAX`. -/
def i64Max : ℕ := 2 ^ 63 - 1

/-- `u64::saturating_add`. Truncated subtraction on `ℕ` is `u64::saturating_sub`. -/
def saturatingAdd (a b : ℕ) : ℕ := min (a + b) u64Max

theorem add_le_of_saturatingAdd_le {a b n : ℕ} (hb : a + b ≤ u64Max)
    (h : saturatingAdd a b ≤ n) : a + b ≤ n := by
  unfold saturatingAdd at h
  rwa [Nat.min_eq_left hb] at h

/-- Pairing announcements one mailbox holds at most. -/
def maxPairingPerMailbox : ℕ := 8

/-- The envelope kind that is reusable: a fetch returns it and leaves it queued. -/
def pairingAnnouncement : String := "pairing_announcement"

/-- The limits of one relay. The last fields are what `from_env_and_args` refuses to start
without. -/
structure RelayConfig where
  ttlSeconds : ℕ
  maxQueuePerMailbox : ℕ
  maxFetchLimit : ℕ
  maxEnvelopeBytes : ℕ
  maxLineBytes : ℕ
  maxRequestsPerMinute : ℕ
  maxStoresPerMinute : ℕ
  maxStoreBytesPerMinute : ℕ
  maxTotalBytes : ℕ
  maxStoredBytesPerPeer : ℕ
  maxRateKeys : ℕ
  maxBytesPerMailboxPerMinute : ℕ
  softBanThreshold : ℕ
  softBanSeconds : ℕ
  maxMailboxBytes : ℕ
  maxFetchLimit_pos : 0 < maxFetchLimit
  maxQueuePerMailbox_pos : 0 < maxQueuePerMailbox
  maxEnvelopeBytes_pos : 0 < maxEnvelopeBytes
  maxEnvelopeBytes_le : maxEnvelopeBytes ≤ maxLineBytes
  maxRequestsPerMinute_pos : 0 < maxRequestsPerMinute
  maxTotalBytes_pos : 0 < maxTotalBytes
  maxStoresPerMinute_pos : 0 < maxStoresPerMinute
  maxStoreBytesPerMinute_pos : 0 < maxStoreBytesPerMinute
  maxMailboxBytes_pos : 0 < maxMailboxBytes

namespace RelayConfig

/-- `ttl.as_millis() as u64`. -/
def ttlMillis (cfg : RelayConfig) : ℕ := cfg.ttlSeconds * 1000 % 2 ^ 64

/-- `soft_ban_duration.as_millis() as u64`. -/
def softBanMillis (cfg : RelayConfig) : ℕ := cfg.softBanSeconds * 1000 % 2 ^ 64

/-- The limits a relay starts with when nothing is configured. -/
def defaults : RelayConfig where
  ttlSeconds := 7 * 24 * 60 * 60
  maxQueuePerMailbox := 512
  maxFetchLimit := 128
  maxEnvelopeBytes := 256 * 1024
  maxLineBytes := 300 * 1024
  maxRequestsPerMinute := 1200
  maxStoresPerMinute := 240
  maxStoreBytesPerMinute := 32 * 1024 * 1024
  maxTotalBytes := 4 * 1024 * 1024 * 1024
  maxStoredBytesPerPeer := 256 * 1024 * 1024
  maxRateKeys := 100000
  maxBytesPerMailboxPerMinute := 10 * 1024 * 1024
  softBanThreshold := 10
  softBanSeconds := 300
  maxMailboxBytes := 64 * 1024 * 1024
  maxFetchLimit_pos := by decide
  maxQueuePerMailbox_pos := by decide
  maxEnvelopeBytes_pos := by decide
  maxEnvelopeBytes_le := by decide
  maxRequestsPerMinute_pos := by decide
  maxTotalBytes_pos := by decide
  maxStoresPerMinute_pos := by decide
  maxStoreBytesPerMinute_pos := by decide
  maxMailboxBytes_pos := by decide

end RelayConfig

/-! ### Strings of the wire -/

/-- `str::strip_prefix`. -/
def stripPrefix? (pre s : String) : Option String :=
  if pre.toList.isPrefixOf s.toList then some (String.ofList (s.toList.drop pre.length)) else none

/-- `str::strip_suffix`. -/
def stripSuffix? (suf s : String) : Option String :=
  if suf.toList.isSuffixOf s.toList then
    some (String.ofList (s.toList.take (s.length - suf.length)))
  else none

/-- The group an address key belongs to for what it may hold: an IPv6 `/64` key widened to its
`/48`, any other key as it is; a UDP key counts with its address. -/
def peerGroup (peer : String) : String :=
  let peer := (stripPrefix? "udp:" peer).getD peer
  match stripSuffix? "::/64" peer with
  | some body =>
    match body.toList.splitOn ':' with
    | [a, b, c, _] => String.ofList (a ++ ':' :: b ++ ':' :: c) ++ "::/48"
    | _ => peer
  | none => peer

/-- `validate_mailbox_id`: 1 to 160 bytes, ASCII letters, digits, `-`, `_`, `.` and `:`. -/
def validateMailboxId (value : String) : Option String :=
  if value.isEmpty || decide (160 < value.utf8ByteSize) then
    some "mailbox id must be 1..160 characters"
  else if !value.toList.all (fun c => c.isAlphanum || ['-', '_', '.', ':'].contains c) then
    some "mailbox id contains unsupported characters"
  else none

end Relay
end Conest

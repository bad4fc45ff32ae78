import Conest.Ble.Reassembler
import Conest.Mesh.Codec

/-!
# Splitting packets of the Dart codec

`packetSize_take` says what `packetSize` makes of a prefix of a packet's wire form: nothing yet, or
the length of the packet. From it follows what a buffer holds after any part of a stream of packets,
padded or not (`feed_stream`): the bytes of the packet that has not ended.

A push is refused when these bytes and the chunk are more than a packet may have, even where most of
the chunk belongs to the next packet. `Fits` is the condition that this does not happen.
-/

namespace Conest
namespace Ble

open Lib Mesh List Option

/-! ### Packet sizes -/

section Sizes

variable {p : BitchatPacket}

/-- The length of the header. -/
def headerLength (p : BitchatPacket) : ℕ := 12 + lengthBytes p.version

/-- Whether the packet carries a route. -/
def hasRoute (p : BitchatPacket) : Prop := 2 ≤ p.version ∧ p.hops ≠ []

instance : Decidable (hasRoute p) := inferInstanceAs (Decidable (_ ∧ _))

/-- Where the route would start. -/
def routeStart (p : BitchatPacket) : ℕ :=
  headerLength p + 8 + if p.recipientId.isSome then 8 else 0

/-- How many bytes it takes to know the packet's size: the header, and the number of hops. -/
def decidesAt (p : BitchatPacket) : ℕ := if hasRoute p then routeStart p + 1 else headerLength p

/-- The flags byte. -/
def flagsByte (p : BitchatPacket) : UInt8 :=
  flagsOf p.recipientId.isSome p.signature.isSome p.compressed (decide (hasRoute p))

theorem flagsByte_known (p : BitchatPacket) : flagsByte p &&& ~~~15 = 0 := by
  unfold flagsByte
  generalize p.recipientId.isSome = r, p.signature.isSome = s, p.compressed = c,
    decide (hasRoute p) = h
  revert r s c h
  decide

theorem flagsByte_recipient (p : BitchatPacket) :
    flagsByte p &&& 1 ≠ 0 ↔ p.recipientId.isSome = true :=
  decide_eq_true_iff.symm.trans (by rw [show decide (flagsByte p &&& 1 ≠ 0) = p.recipientId.isSome
    from (flagsOf_reads _ _ _ _).1])

theorem flagsByte_signature (p : BitchatPacket) :
    flagsByte p &&& 2 ≠ 0 ↔ p.signature.isSome = true :=
  decide_eq_true_iff.symm.trans (by rw [show decide (flagsByte p &&& 2 ≠ 0) = p.signature.isSome
    from (flagsOf_reads _ _ _ _).2.1])

theorem flagsByte_route (p : BitchatPacket) : flagsByte p &&& 8 ≠ 0 ↔ hasRoute p :=
  decide_eq_true_iff.symm.trans (by
    rw [show decide (flagsByte p &&& 8 ≠ 0) = decide (hasRoute p) from (flagsOf_reads _ _ _ _).2.2.2,
      decide_eq_true_iff])

theorem raw_shape (p : BitchatPacket) (extra : Bytes) : ∃ ten : Bytes, ten.length = 10 ∧
    p.raw ++ extra = p.version :: (ten ++ flagsByte p ::
      (bigEndian (lengthBytes p.version) p.payload.length ++ (p.body ++ extra))) := by
  refine ⟨p.type :: p.ttl :: bigEndian 8 p.timestamp.toNat, ?_, ?_⟩
  · rw [length_cons, length_cons, bigEndian_length]
  · unfold BitchatPacket.raw flagsByte hasRoute
    simp only [cons_append, append_assoc]
    rfl

theorem body_length (h : p.WellFormed) : p.body.length =
    8 + ((if p.recipientId.isSome then 8 else 0) + ((if hasRoute p then 1 + p.hops.length * 8 else 0) +
      (p.payload.length + if p.signature.isSome then 64 else 0))) := by
  have hrecipient : ((p.recipientId.map fixed).getD []).length =
      if p.recipientId.isSome then 8 else 0 := by
    cases p.recipientId with
    | none => rfl
    | some id => exact fixed_length id
  have hsignature : (p.signature.getD []).length = if p.signature.isSome then 64 else 0 := by
    cases hs : p.signature with
    | none => rfl
    | some s => exact h.signature s hs
  have hhops : (p.hops.flatMap fixed).length = p.hops.length * 8 := by
    rw [length_flatMap, map_congr_left fun hop _ => fixed_length hop, map_const',
      sum_replicate]
    rfl
  have hroute : (if 2 ≤ p.version ∧ p.hops ≠ [] then
      UInt8.ofNat p.hops.length :: p.hops.flatMap fixed else []).length =
      if hasRoute p then 1 + p.hops.length * 8 else 0 := by
    by_cases hr : hasRoute p
    · have hr' : 2 ≤ p.version ∧ p.hops ≠ [] := hr
      rw [if_pos hr, if_pos hr', length_cons, hhops, Nat.add_comm]
    · have hr' : ¬ (2 ≤ p.version ∧ p.hops ≠ []) := hr
      rw [if_neg hr, if_neg hr']
      rfl
  unfold BitchatPacket.body
  simp only [length_append]
  rw [fixed_length, hrecipient, hsignature, hroute]
  rfl

theorem raw_length (h : p.WellFormed) : p.raw.length = routeStart p +
    ((if hasRoute p then 1 + p.hops.length * 8 else 0) +
      (p.payload.length + if p.signature.isSome then 64 else 0)) := by
  obtain ⟨ten, hten, hshape⟩ := raw_shape p []
  rw [append_nil] at hshape
  rw [hshape]
  simp only [length_cons, length_append, bigEndian_length, hten, length_nil,
    body_length h]
  unfold routeStart headerLength
  omega

theorem decidesAt_le (h : p.WellFormed) : decidesAt p ≤ p.raw.length := by
  rw [raw_length h]
  unfold decidesAt
  split
  · omega
  · unfold routeStart
    omega

theorem route_shape (hr : hasRoute p) (extra : Bytes) : ∃ front rest : Bytes,
    front.length = routeStart p ∧
      p.raw ++ extra = front ++ UInt8.ofNat p.hops.length :: rest := by
  obtain ⟨ten, hten, hshape⟩ := raw_shape p extra
  have hr' : 2 ≤ p.version ∧ p.hops ≠ [] := hr
  have hrecipient : ((p.recipientId.map fixed).getD []).length =
      if p.recipientId.isSome then 8 else 0 := by
    cases p.recipientId with
    | none => rfl
    | some id => exact fixed_length id
  refine ⟨(p.version :: (ten ++ [flagsByte p])) ++ (bigEndian (lengthBytes p.version) p.payload.length
    ++ (fixed p.senderId ++ (p.recipientId.map fixed).getD [])),
    p.hops.flatMap fixed ++ (p.payload ++ (p.signature.getD [] ++ extra)), ?_, ?_⟩
  · simp only [length_cons, length_append, bigEndian_length, hten, length_nil,
      fixed_length, hrecipient]
    unfold routeStart headerLength senderBytes
    omega
  · rw [hshape]
    unfold BitchatPacket.body
    rw [if_pos hr']
    simp

theorem getD_append_length (front : Bytes) (x : UInt8) (rest : Bytes) :
    (front ++ x :: rest).getD front.length 0 = x := by
  rw [getD_eq_getElem?_getD, getElem?_append_right (le_refl front.length), Nat.sub_self]
  rfl

theorem getD_take {l : Bytes} {j : ℕ} (h : j < i) : (l.take i).getD j 0 = l.getD j 0 := by
  rw [getD_eq_getElem?_getD, getD_eq_getElem?_getD, getElem?_take_of_lt h]

theorem header_eq (h : p.WellFormed) : (if p.version = 1 then 14 else 16) = headerLength p := by
  unfold headerLength lengthBytes
  rcases h.version with hversion | hversion
  · rw [hversion]
    rfl
  · rw [hversion]
    rfl

theorem payload_take (h : p.WellFormed) (extra : Bytes) (hi : headerLength p ≤ i) :
    ofBigEndian ((((p.raw ++ extra).take i).drop 12).take (headerLength p - 12)) =
      p.payload.length := by
  obtain ⟨ten, hten, hshape⟩ := raw_shape p extra
  have hfits : p.payload.length < 256 ^ lengthBytes p.version := by
    have hle := h.payload
    rcases h.version with hversion | hversion
    · rw [hversion] at hle ⊢
      exact Nat.lt_of_le_of_lt hle (by decide)
    · rw [hversion] at hle ⊢
      exact Nat.lt_of_le_of_lt hle (by decide)
  have hwidth : headerLength p - 12 = lengthBytes p.version := Nat.add_sub_cancel_left 12 _
  have hdrop : (p.raw ++ extra).drop 12 =
      bigEndian (lengthBytes p.version) p.payload.length ++ (p.body ++ extra) := by
    have hfront : p.raw ++ extra = (p.version :: (ten ++ [flagsByte p])) ++
        (bigEndian (lengthBytes p.version) p.payload.length ++ (p.body ++ extra)) := by
      rw [hshape]
      simp
    rw [hfront, drop_left']
    rw [length_cons, length_append, hten]
    rfl
  rw [hwidth, drop_take, take_take, Nat.min_eq_left (by unfold headerLength at hi; omega),
    hdrop, take_left' (bigEndian_length _ _), ofBigEndian_bigEndian, Nat.mod_eq_of_lt hfits]

/-- **What a prefix says of its size**: nothing before the header and the number of hops are there,
and from then on the length of the packet. -/
theorem packetSize_take (h : p.WellFormed) (hfit : p.raw.length ≤ maxPacket) (extra : Bytes)
    (hpos : 0 < i) (hi : i ≤ (p.raw ++ extra).length) : packetSize ((p.raw ++ extra).take i) =
      if i < decidesAt p then .ok none else .ok (some p.raw.length) := by
  obtain ⟨ten, hten, hshape⟩ := raw_shape p extra
  have hlength : ((p.raw ++ extra).take i).length = i := by
    rw [length_take, Nat.min_eq_left hi]
  have hversion : ((p.raw ++ extra).take i).getD 0 0 = p.version := by
    rw [getD_take hpos]
    rfl
  have hknown : ¬ (p.version ≠ 1 ∧ p.version ≠ 2) := by
    rintro ⟨hone, htwo⟩
    exact h.version.elim hone htwo
  have hrawlen := raw_length h
  have hdecides : headerLength p ≤ decidesAt p := by
    unfold decidesAt
    split
    · unfold routeStart
      omega
    · exact le_refl _
  unfold packetSize
  simp only
  rw [hversion, if_neg hknown, hlength, header_eq h]
  split
  next hheader =>
    rw [if_pos (hheader.trans_le hdecides)]
  next hheader =>
  have hheader' := Nat.le_of_not_lt hheader
  have hflags : ((p.raw ++ extra).take i).getD 11 0 = flagsByte p := by
    have heleven : (p.version :: ten).length = 11 := by rw [length_cons, hten]
    have hlt : 11 < i := by
      unfold headerLength at hheader'
      omega
    rw [getD_take hlt, hshape, ← cons_append, ← heleven, getD_append_length]
  have hroute1 : ¬ (flagsByte p &&& ~~~15 ≠ 0 ∨ (p.version = 1 ∧ flagsByte p &&& 8 ≠ 0)) := by
    rintro (hunknown | ⟨hone, hroute⟩)
    · exact hunknown (flagsByte_known p)
    · -- a packet of the first version has no route
      have hr := ((flagsByte_route p).mp hroute).1
      rw [hone] at hr
      exact absurd hr (by decide)
  have hpayload : ¬ maxPacket < p.payload.length := by omega
  rw [hflags, if_neg hroute1, payload_take h extra hheader', if_neg hpayload]
  have hstart : headerLength p + 8 + (if flagsByte p &&& 1 ≠ 0 then 8 else 0) = routeStart p := by
    unfold routeStart
    simp[flagsByte_recipient]
  have hsignature : (if flagsByte p &&& 2 ≠ 0 then 64 else 0) =
      if p.signature.isSome then 64 else 0 := by
    simp[flagsByte_signature]
  rw [hstart, hsignature]
  by_cases hr : hasRoute p
  · have hflag := (flagsByte_route p).mpr hr
    have hdecides' : decidesAt p = routeStart p + 1 := if_pos hr
    rw [if_pos hr] at hrawlen
    by_cases hshort : i ≤ routeStart p
    · rw [if_pos ⟨hflag, hshort⟩, if_pos (by omega)]
    rw [if_neg (by rintro ⟨-, hle⟩; exact hshort hle), if_pos hflag]
    obtain ⟨front, rest, hfront, hroute⟩ := route_shape hr extra
    have hcount : (((p.raw ++ extra).take i).getD (routeStart p) 0).toNat = p.hops.length := by
      have hle : p.hops.length ≤ 255 := by
        cases hp : p.route with
        | none =>
          have hempty : p.hops = [] := by rw [BitchatPacket.hops, hp]; rfl
          exact absurd hempty hr.2
        | some hops =>
          rw [BitchatPacket.hops, hp]
          exact (h.route hops hp).2.2.1
      rw [getD_take (Nat.lt_of_not_le hshort), hroute, ← hfront, getD_append_length]
      exact UInt8.toNat_ofNat_of_lt' (Nat.lt_of_le_of_lt hle (by decide))
    have hsize : routeStart p + (1 + p.hops.length * 8) + (p.payload.length +
        if p.signature.isSome then 64 else 0) = p.raw.length := by
      omega
    rw [hcount, hsize, if_neg (Nat.not_lt.mpr hfit), if_neg (by omega)]
  · have hflag : ¬ flagsByte p &&& 8 ≠ 0 := fun hroute => hr ((flagsByte_route p).mp hroute)
    have hdecides' : decidesAt p = headerLength p := if_neg hr
    rw [if_neg hr, Nat.zero_add] at hrawlen
    rw [if_neg (by rintro ⟨hroute, -⟩; exact hflag hroute), if_neg hflag, ← hrawlen,
      if_neg (Nat.not_lt.mpr hfit), hdecides', if_neg hheader]

end Sizes

/-! ### One packet -/

section Packet

variable {p : BitchatPacket} {s : Buffer}

/-- No packet has begun, and what may still come as padding is not the start of one. -/
def Ready (s : Buffer) : Prop :=
  s.bytes = [] ∧ (0 < s.padding.2 → s.padding.1 ≠ 1 ∧ s.padding.1 ≠ 2)

theorem ready_empty : Ready Buffer.empty := ⟨rfl, fun h => absurd h (Nat.lt_irrefl 0)⟩

theorem paddingAfter_cases (raw : Bytes) :
    paddingAfter raw = (0, 0) ∨
      ∃ n, 16 ≤ n ∧ n ≤ 255 ∧ paddingAfter raw = (UInt8.ofNat n, n) := by
  unfold paddingAfter
  cases hfind : [256, 512, 1024, 2048].find? fun block => decide (raw.length + 16 ≤ block) with
  | none => exact .inl rfl
  | some block =>
  have hblock : raw.length + 16 ≤ block := by simpa using find?_some hfind
  simp only
  split
  next hle => exact .inr ⟨block - raw.length, by omega, hle, rfl⟩
  · exact .inl rfl

theorem ready_paddingAfter (raw : Bytes) (b : UInt8) (hb : b = (paddingAfter raw).1)
    (hk : k ≤ (paddingAfter raw).2) : Ready ⟨[], (b, k)⟩ := by
  subst hb
  refine ⟨rfl, fun hpos => ?_⟩
  rcases paddingAfter_cases raw with heq | ⟨n, hge, hle, heq⟩
  · rw [heq] at hk
    exact absurd hpos (Nat.not_lt.mpr hk)
  rw [heq]
  have hvalue : (UInt8.ofNat n).toNat = n :=
    UInt8.toNat_ofNat_of_lt' (Nat.lt_of_le_of_lt hle (by decide))
  constructor
  · intro hone
    rw [show (UInt8.ofNat n, n).1 = UInt8.ofNat n from rfl] at hone
    rw [hone] at hvalue
    exact absurd hvalue (by simp; omega)
  · intro htwo
    rw [show (UInt8.ofNat n, n).1 = UInt8.ofNat n from rfl] at htwo
    rw [htwo] at hvalue
    exact absurd hvalue (by simp; omega)

theorem accept_raw (h : p.WellFormed) (hfit : p.raw.length ≤ maxPacket) (hi : i < p.raw.length)
    (hbytes : s.bytes = p.raw.take i) (hready : i = 0 → Ready s) : ∃ padding, s.accept p.raw[i] =
      if i + 1 = p.raw.length then .ok ([p.raw], ⟨[], paddingAfter p.raw⟩)
      else .ok ([], ⟨p.raw.take (i + 1), padding⟩) := by
  have hnext : s.bytes ++ [p.raw[i]] = p.raw.take (i + 1) := by
    rw [hbytes, take_add_one, getElem?_eq_getElem hi, toList_some]
  -- the byte is no padding: it is in a packet, or it is the version of one
  have hno : ¬ (s.bytes = [] ∧ 0 < s.padding.2 ∧ p.raw[i] = s.padding.1) := by
    rintro ⟨hempty, hpos, heq⟩
    have hzero : i = 0 := by
      rw [hbytes, take_eq_nil_iff] at hempty
      rcases hempty with hz | hnil
      · exact hz
      · rw [hnil] at hi
        exact absurd hi (Nat.not_lt_zero i)
    subst hzero
    have hversion : p.raw[0] = p.version := rfl
    obtain ⟨hone, htwo⟩ := (hready rfl).2 hpos
    rw [← heq] at hone htwo
    exact h.version.elim hone htwo
  have hsize := packetSize_take h hfit [] (Nat.succ_pos i) (by rw [append_nil]; exact hi)
  rw [append_nil] at hsize
  have hlength : (p.raw.take (i + 1)).length = i + 1 := by
    rw [length_take, Nat.min_eq_left hi]
  refine ⟨if s.bytes = [] ∧ 0 < s.padding.2 then (0, 0) else s.padding, ?_⟩
  unfold Buffer.accept
  simp only
  rw [if_neg hno, hnext, hsize]
  by_cases hend : i + 1 = p.raw.length
  · have hdecides : ¬ i + 1 < decidesAt p := by
      have hle := decidesAt_le h
      omega
    have hall : p.raw.take (i + 1) = p.raw := by rw [hend, take_length]
    rw [if_neg hdecides, if_pos hend, hall]
    simp
  rw [if_neg hend]
  split
  · next e heq =>
    split at heq
    · cases heq
    · cases heq
  next size heq =>
  have hne : size ≠ some (p.raw.take (i + 1)).length := by
    rw [hlength]
    split at heq
    · cases heq
      intro hnone
      cases hnone
    · cases heq
      intro hsome
      exact hend (some.inj hsome).symm
  rw [if_neg hne]

theorem feed_raw (h : p.WellFormed) (hfit : p.raw.length ≤ maxPacket) (hs : Ready s)
    (hi : i ≤ p.raw.length) :
    ∃ t, s.feed (p.raw.take i) = .ok (if i = p.raw.length then [p.raw] else [], t) ∧
      (i = 0 → t = s) ∧ (i < p.raw.length → t.bytes = p.raw.take i) ∧
      (i = p.raw.length → t = ⟨[], paddingAfter p.raw⟩) := by
  have hpos : 0 < p.raw.length := by
    obtain ⟨ten, -, hshape⟩ := raw_shape p []
    rw [append_nil] at hshape
    exact Nat.succ_pos _
  induction i with
  | zero =>
    refine ⟨s, ?_, fun _ => rfl, fun _ => hs.1, fun heq => absurd heq (Nat.ne_of_lt hpos)⟩
    rfl
  | succ i ih =>
  obtain ⟨t, hfeed, hzero, hinside, -⟩ := ih (Nat.le_of_succ_le hi)
  have hready : i = 0 → Ready t := fun heq => (hzero heq).symm ▸ hs
  obtain ⟨padding, haccept⟩ := accept_raw h hfit hi (hinside hi) hready
  have hfront : s.feed (p.raw.take i) = .ok ([], t) := by
    rw [hfeed, if_neg (Nat.ne_of_lt hi)]
  have hsplit : p.raw.take (i + 1) = p.raw.take i ++ [p.raw[i]] := by
    rw [take_add_one, getElem?_eq_getElem hi, toList_some]
  by_cases hend : i + 1 = p.raw.length
  · rw [if_pos hend] at haccept
    refine ⟨⟨[], paddingAfter p.raw⟩, ?_, fun heq => absurd heq (Nat.succ_ne_zero i),
      fun hlt => absurd hend (Nat.ne_of_lt hlt), fun _ => rfl⟩
    rw [if_pos hend]
    have hall := Deframer.trySteps_append_ok hfront (Deframer.trySteps_singleton haccept)
    rw [← hsplit] at hall
    exact hall
  rw [if_neg hend] at haccept
  refine ⟨⟨p.raw.take (i + 1), padding⟩, ?_, fun heq => absurd heq (Nat.succ_ne_zero i),
    fun _ => rfl, fun heq => absurd heq hend⟩
  rw [if_neg hend]
  have hall := Deframer.trySteps_append_ok hfront (Deframer.trySteps_singleton haccept)
  rw [← hsplit] at hall
  exact hall

theorem feed_padding (b : UInt8) {n : ℕ} (hk : k ≤ n) :
    (⟨[], (b, n)⟩ : Buffer).feed (replicate k b) = .ok ([], ⟨[], (b, n - k)⟩) := by
  induction k generalizing n with
  | zero => rfl
  | succ k ih =>
  have hpos : 0 < n := by omega
  have haccept : (⟨[], (b, n)⟩ : Buffer).accept b = .ok ([], ⟨[], (b, n - 1)⟩) := by
    unfold Buffer.accept
    rw [if_pos ⟨rfl, hpos, rfl⟩]
  have hrest := @ih (n - 1) (by omega)
  rw [replicate_succ]
  unfold Buffer.feed Deframer.trySteps at hrest ⊢
  rw [haccept]
  simp only
  rw [show Deframer.trySteps Buffer.accept (⟨[], (b, n - 1)⟩ : Buffer) (replicate k b) = _
    from ih (by omega), Nat.sub_sub, Nat.add_comm 1 k]
  rfl

theorem encode_cases (p : BitchatPacket) (pad : Option Bool) :
    p.encode pad = p.raw ∨ ∃ n, paddingAfter p.raw = (UInt8.ofNat n, n) ∧
      p.encode pad = p.raw ++ replicate n (UInt8.ofNat n) := by
  unfold BitchatPacket.encode
  split
  · unfold bitchatPad paddingAfter
    cases hfind : [256, 512, 1024, 2048].find? fun block =>
        decide (p.raw.length + 16 ≤ block) with
    | none =>
      left
      simp
    | some block =>
      simp only [getD_some]
      split
      · exact .inl rfl
      next hneeded =>
      refine .inr ⟨block - p.raw.length, ?_, rfl⟩
      rw [if_pos (by omega)]
  · exact .inl rfl

end Packet

/-! ### A stream of packets -/

variable {i k o : ℕ}

/-- A packet as it is sent: well formed, of at most 4096 bytes, with or without padding. -/
structure Parcel where
  packet : BitchatPacket
  pad : Option Bool
  wellFormed : packet.WellFormed
  fits : packet.raw.length ≤ maxPacket

namespace Parcel

def raw (q : Parcel) : Bytes := q.packet.raw

def wire (q : Parcel) : Bytes := q.packet.encode q.pad

/-- The lengths of the packet and of its wire form. -/
def sizes (q : Parcel) : ℕ × ℕ := (q.raw.length, q.wire.length)

theorem raw_le_wire (q : Parcel) : q.raw.length ≤ q.wire.length := by
  unfold raw wire
  rcases encode_cases q.packet q.pad with heq | ⟨n, -, heq⟩
  · rw [heq]
  · rw [heq, length_append]
    exact Nat.le_add_right _ _

end Parcel

/-- How many bytes of a packet that has not ended there are after `offset` bytes of a stream of
packets, given by their sizes. -/
def pending : List (ℕ × ℕ) → ℕ → ℕ
  | [], _ => 0
  | (raw, wire) :: rest, offset =>
    if offset < wire then if offset < raw then offset else 0 else pending rest (offset - wire)

/-- A chunk that starts at `offset` and the packet that has not ended there are together no longer
than a packet may be; and so on for the chunks after it. -/
def Fits (sizes : List (ℕ × ℕ)) : ℕ → List ℕ → Prop
  | _, [] => True
  | offset, chunk :: chunks =>
    pending sizes offset + chunk ≤ maxPacket ∧ Fits sizes (offset + chunk) chunks

instance decidableFits (sizes : List (ℕ × ℕ)) :
    ∀ offset chunks, Decidable (Fits sizes offset chunks)
  | _, [] => isTrue trivial
  | offset, chunk :: chunks =>
    have := decidableFits sizes (offset + chunk) chunks
    inferInstanceAs (Decidable (_ ∧ _))

section Stream

variable {s : Buffer}

theorem feed_wire (q : Parcel) (hs : Ready s) (ho : o ≤ q.wire.length) :
    ∃ t, s.feed (q.wire.take o) = .ok (if o < q.raw.length then [] else [q.raw], t) ∧
      t.bytes.length = (if o < q.raw.length then o else 0) ∧ (q.raw.length ≤ o → Ready t) := by
  by_cases hin : o < q.raw.length
  · -- inside the packet
    obtain ⟨t, hfeed, -, hinside, -⟩ := feed_raw q.wellFormed q.fits hs (Nat.le_of_lt hin)
    have htake : q.wire.take o = q.raw.take o := by
      unfold Parcel.wire Parcel.raw at *
      rcases encode_cases q.packet q.pad with heq | ⟨n, -, heq⟩
      · rw [heq]
      · rw [heq, take_append_of_le_length (Nat.le_of_lt hin)]
    refine ⟨t, ?_, ?_, fun hle => absurd hin (Nat.not_lt.mpr hle)⟩
    · rw [htake, if_pos hin]
      unfold Parcel.raw at hin ⊢
      rw [hfeed, if_neg (Nat.ne_of_lt hin)]
    · rw [if_pos hin, hinside hin, length_take]
      exact Nat.min_eq_left (Nat.le_of_lt hin)
  · -- the packet has ended, and what follows is its padding
    have hout := Nat.le_of_not_lt hin
    obtain ⟨t, hfeed, -, -, hend⟩ := feed_raw q.wellFormed q.fits hs (le_refl q.packet.raw.length)
    rw [take_length, if_pos rfl, hend rfl] at hfeed
    obtain ⟨k, hk, htake⟩ : ∃ k, k ≤ (paddingAfter q.raw).2 ∧
        q.wire.take o = q.raw ++ replicate k (paddingAfter q.raw).1 := by
      unfold Parcel.wire Parcel.raw at *
      rcases encode_cases q.packet q.pad with heq | ⟨n, hpadding, heq⟩
      · refine ⟨0, Nat.zero_le _, ?_⟩
        rw [heq] at ho ⊢
        rw [take_of_length_le hout, replicate_zero, append_nil]
      rw [heq] at ho ⊢
      rw [length_append, length_replicate] at ho
      refine ⟨o - q.packet.raw.length, ?_, ?_⟩
      · rw [hpadding]
        show o - q.packet.raw.length ≤ n
        omega
      · rw [take_append, take_of_length_le hout, take_replicate, hpadding,
          Nat.min_eq_left (by omega)]
    have hpadding := feed_padding (paddingAfter q.raw).1 hk
    refine ⟨_, ?_, ?_, fun _ =>
      ready_paddingAfter q.raw _ rfl (Nat.sub_le (paddingAfter q.raw).2 k)⟩
    · rw [htake, if_neg hin]
      exact Deframer.trySteps_append_ok hfeed hpadding
    · rw [if_neg hin]
      rfl

theorem feed_parcel (q : Parcel) (hs : Ready s) :
    ∃ t, s.feed q.wire = .ok ([q.raw], t) ∧ Ready t := by
  obtain ⟨t, hfeed, -, hready⟩ := feed_wire q hs (le_refl q.wire.length)
  rw [take_length, if_neg (Nat.not_lt.mpr q.raw_le_wire)] at hfeed
  exact ⟨t, hfeed, hready q.raw_le_wire⟩

/-- **What a buffer holds after a part of a stream** is the packet that has not ended. -/
theorem feed_stream (parcels : List Parcel) (hs : Ready s)
    (ho : o ≤ (parcels.flatMap Parcel.wire).length) :
    ∃ packets t, s.feed ((parcels.flatMap Parcel.wire).take o) = .ok (packets, t) ∧
      t.bytes.length = pending (parcels.map Parcel.sizes) o := by
  induction parcels generalizing s o with
  | nil =>
    refine ⟨[], s, ?_, ?_⟩
    · rw [flatMap_nil, take_nil]
      rfl
    · rw [hs.1]
      rfl
  | cons q parcels ih =>
  rw [flatMap_cons, length_append] at ho
  rw [flatMap_cons, map_cons]
  unfold pending Parcel.sizes
  by_cases hin : o < q.wire.length
  · obtain ⟨t, hfeed, hlength, -⟩ := feed_wire q hs (Nat.le_of_lt hin)
    rw [if_pos hin, take_append_of_le_length (Nat.le_of_lt hin)]
    exact ⟨_, t, hfeed, hlength⟩
  obtain ⟨t, hfeed, hready⟩ := feed_parcel q hs
  obtain ⟨packets, u, hrest, hlength⟩ := ih hready (show o - q.wire.length ≤ _ by omega)
  rw [if_neg hin, take_append, take_of_length_le (Nat.le_of_not_lt hin)]
  exact ⟨_, u, Deframer.trySteps_append_ok hfeed hrest, hlength⟩

theorem feed_all (parcels : List Parcel) (hs : Ready s) :
    ∃ t, s.feed (parcels.flatMap Parcel.wire) = .ok (parcels.map Parcel.raw, t) := by
  induction parcels generalizing s with
  | nil => exact ⟨s, rfl⟩
  | cons q parcels ih =>
    obtain ⟨t, hfeed, hready⟩ := feed_parcel q hs
    obtain ⟨u, hrest⟩ := ih hready
    exact ⟨u, Deframer.trySteps_append_ok hfeed hrest⟩

end Stream

/-! ### Chunks -/

/-- The chunks come in time, one after another. -/
def Timely (chunks : List (Bytes × ℕ)) : Prop := chunks.IsChain fun a b => b.2 < a.2 + 5000

/-- A cut of a stream into chunks that are pushed in time. -/
structure Cut (stream : Bytes) (chunks : List (Bytes × ℕ)) : Prop where
  flatten : (chunks.map Prod.fst).flatten = stream
  sizes : ∀ chunk ∈ chunks, chunk.1 ≠ [] ∧ chunk.1.length ≤ 512
  timely : Timely chunks

/-- The chunks give exactly these packets, and no error. -/
def Gives (r : Reassembler) (chunks : List (Bytes × ℕ)) (packets : List Bytes) : Prop :=
  ∃ results : List (List Bytes), r.pushes chunks = results.map Except.ok ∧ results.flatten = packets

theorem push_cases {r : Reassembler} {chunk : Bytes} {now : ℕ} {packets : List Bytes} {b : Buffer}
    (htime : r.toBuffer = Buffer.empty ∨ now < r.last + 5000) (hsize : chunk.length ≤ 512)
    (hfeed : r.toBuffer.feed chunk = .ok (packets, b)) :
    r.push chunk now = if r.bytes.length + chunk.length ≤ maxPacket then (.ok packets, ⟨b, now⟩)
      else (.error (), Reassembler.empty) := by
  have hbuffer : (if 5000 < now - r.last then Buffer.empty else r.toBuffer) = r.toBuffer := by
    rcases htime with hempty | hlt
    · rw [hempty, ite_self]
    · rw [if_neg (by omega)]
  have hsmall : ¬ maxPacket < chunk.length := by
    unfold maxPacket
    omega
  unfold Reassembler.push
  rw [hbuffer]
  by_cases hfits : r.bytes.length + chunk.length ≤ maxPacket
  · rw [if_pos hfits, if_neg (by rintro (hlong | hlong); exacts [hsmall hlong, by omega]), hfeed]
  · rw [if_neg hfits, if_pos (.inr (Nat.lt_of_not_le hfits))]

theorem gives_cons {r t : Reassembler} {chunk : Bytes × ℕ} {chunks : List (Bytes × ℕ)}
    {packets now later : List Bytes} (hpush : r.push chunk.1 chunk.2 = (.ok now, t))
    (hpackets : packets = now ++ later) :
    Gives r (chunk :: chunks) packets ↔ Gives t chunks later := by
  have hpushes : r.pushes (chunk :: chunks) = .ok now :: t.pushes chunks := by
    rw [Reassembler.pushes, hpush]
  constructor
  · rintro ⟨results, heq, hflat⟩
    rw [hpushes] at heq
    cases results with
    | nil => cases heq
    | cons result results =>
      obtain ⟨hfirst, hrest⟩ := cons.inj heq
      cases hfirst
      rw [hpackets] at hflat
      exact ⟨results, hrest, append_cancel_left hflat⟩
  · rintro ⟨results, heq, hflat⟩
    refine ⟨now :: results, ?_, ?_⟩
    · rw [hpushes, heq]
      rfl
    · rw [flatten_cons, hflat, hpackets]

theorem gives_iff (parcels : List Parcel) (r : Reassembler) (before : Bytes)
    (chunks : List (Bytes × ℕ)) (front packets : List Bytes)
    (hstream : parcels.flatMap Parcel.wire = before ++ (chunks.map Prod.fst).flatten)
    (hbefore : Buffer.empty.feed before = .ok (front, r.toBuffer))
    (hall : parcels.map Parcel.raw = front ++ packets)
    (hsizes : ∀ chunk ∈ chunks, chunk.1 ≠ [] ∧ chunk.1.length ≤ 512)
    (htimely : Timely chunks)
    (hfirst : ∀ chunk ∈ chunks.head?, r.toBuffer = Buffer.empty ∨ chunk.2 < r.last + 5000) :
    Gives r chunks packets ↔
      Fits (parcels.map Parcel.sizes) before.length (chunks.map fun chunk => chunk.1.length) := by
  induction chunks generalizing r before front packets with
  | nil =>
    -- everything has been pushed
    obtain ⟨t, hwhole⟩ := feed_all parcels ready_empty
    rw [hstream, map_nil, flatten_nil, append_nil, hbefore] at hwhole
    have hpackets : packets = [] := by
      have hfront := congrArg Prod.fst (Except.ok.inj hwhole)
      rw [hall] at hfront
      exact self_eq_append_right.mp hfront
    rw [hpackets]
    exact ⟨fun _ => trivial, fun _ => ⟨[], rfl, rfl⟩⟩
  | cons chunk chunks ih =>
  obtain ⟨bytes, now⟩ := chunk
  have hsize := hsizes (bytes, now) mem_cons_self
  rw [map_cons, flatten_cons, ← append_assoc] at hstream
  -- what has been pushed before, and with this chunk
  have htake : (parcels.flatMap Parcel.wire).take before.length = before := by
    rw [hstream, append_assoc, take_left]
  have htake' : (parcels.flatMap Parcel.wire).take (before ++ bytes).length = before ++ bytes := by
    rw [hstream, take_left]
  obtain ⟨front₁, t₁, hfeed₁, hlength⟩ := feed_stream parcels ready_empty (o := before.length)
    (by rw [hstream, length_append, length_append]; omega)
  rw [htake, hbefore] at hfeed₁
  cases hfeed₁
  obtain ⟨front₂, t₂, hfeed₂, -⟩ := feed_stream parcels ready_empty (o := (before ++ bytes).length)
    (by rw [hstream, @length_append _ (before ++ bytes)]; omega)
  rw [htake'] at hfeed₂
  obtain ⟨now₁, hchunk, hfront₂⟩ := Deframer.trySteps_of_append hbefore hfeed₂
  have hpush := push_cases (hfirst (bytes, now) rfl) hsize.2 hchunk
  show Gives r ((bytes, now) :: chunks) packets ↔
    pending (parcels.map Parcel.sizes) before.length + bytes.length ≤ maxPacket ∧ _
  rw [← hlength]
  by_cases hfits : r.bytes.length + bytes.length ≤ maxPacket
  · rw [if_pos hfits] at hpush
    -- the packets of this chunk come first, and the others give the rest
    obtain ⟨t, hwhole⟩ := feed_all parcels ready_empty
    rw [hstream] at hwhole
    obtain ⟨later, -, hlater⟩ := Deframer.trySteps_of_append hfeed₂ hwhole
    have hpackets : packets = now₁ ++ later := by
      rw [hall, hfront₂, append_assoc] at hlater
      exact append_cancel_left hlater
    have hrest := ih ⟨t₂, now⟩ (before ++ bytes) front₂ later hstream hfeed₂ hlater
      (fun chunk hmem => hsizes chunk (mem_cons_of_mem _ hmem)) htimely.tail
      (fun chunk hmem => .inr (htimely.rel_head? hmem))
    rw [length_append] at hrest
    constructor
    · intro hgives
      exact ⟨hfits, hrest.mp ((gives_cons hpush hpackets).mp hgives)⟩
    · rintro ⟨-, hfit⟩
      exact (gives_cons hpush hpackets).mpr (hrest.mpr hfit)
  · rw [if_neg hfits] at hpush
    constructor
    · rintro ⟨results, hpushes, -⟩
      unfold Reassembler.pushes at hpushes
      rw [hpush] at hpushes
      cases results with
      | nil => cases hpushes
      | cons result results => cases (cons.inj hpushes).1
    · rintro ⟨hle, -⟩
      exact absurd hle hfits

/-- **Native splitting agrees with the codec**: the chunks give exactly the packets, and a prefix of
a wire form gives the length of the packet as soon as it says it. -/
structure SplittingAgrees (parcels : List Parcel) (chunks : List (Bytes × ℕ)) : Prop where
  gives : Gives Reassembler.empty chunks (parcels.map Parcel.raw)
  sizes : ∀ q ∈ parcels, decode q.wire = some q.packet ∧ ∀ i, 0 < i → i ≤ q.wire.length →
    packetSize (q.wire.take i) =
      if i < decidesAt q.packet then .ok none else .ok (some q.raw.length)

theorem packetSize_wire (q : Parcel) (hpos : 0 < i) (hi : i ≤ q.wire.length) :
    packetSize (q.wire.take i) =
      if i < decidesAt q.packet then .ok none else .ok (some q.raw.length) := by
  unfold Parcel.wire Parcel.raw at *
  rcases encode_cases q.packet q.pad with heq | ⟨n, -, heq⟩
  · rw [heq] at hi ⊢
    rw [← append_nil q.packet.raw] at hi
    have hsize := packetSize_take q.wellFormed q.fits [] hpos hi
    rwa [append_nil] at hsize
  · rw [heq] at hi ⊢
    exact packetSize_take q.wellFormed q.fits _ hpos hi

theorem Cut.gives_iff {parcels : List Parcel} {chunks : List (Bytes × ℕ)}
    (h : Cut (parcels.flatMap Parcel.wire) chunks) :
    Gives Reassembler.empty chunks (parcels.map Parcel.raw) ↔
      Fits (parcels.map Parcel.sizes) 0 (chunks.map fun chunk => chunk.1.length) :=
  Ble.gives_iff parcels Reassembler.empty [] chunks [] (parcels.map Parcel.raw) h.flatten.symm rfl
    rfl h.sizes h.timely (fun _ _ => .inl rfl)

/-- For every stream of packets and every cut of it into chunks that come in time, the two sides
agree if and only if no chunk is refused for its length. -/
theorem splitting_agrees_iff (parcels : List Parcel) (chunks : List (Bytes × ℕ))
    (h : Cut (parcels.flatMap Parcel.wire) chunks) :
    SplittingAgrees parcels chunks ↔
      Fits (parcels.map Parcel.sizes) 0 (chunks.map fun chunk => chunk.1.length) := by
  constructor
  · exact fun hagrees => h.gives_iff.mp hagrees.gives
  · intro hfits
    refine ⟨h.gives_iff.mpr hfits, fun q _ => ⟨?_, fun i hpos hi => packetSize_wire q hpos hi⟩⟩
    exact BitchatPacket.decode_encode q.wellFormed q.pad

namespace Sample

def bare (payload : Bytes) : BitchatPacket :=
  ⟨2, BitchatType.message, 7, 0, List.replicate 8 0, none, none, payload, false, none⟩

theorem wellFormed_bare {payload : Bytes} (h : payload.length ≤ 1024 * 1024) :
    (bare payload).WellFormed where
  version := .inr rfl
  sender := rfl
  recipient := by
    intro id hid
    cases hid
  signature := by
    intro s hs
    cases hs
  route := by
    intro hops hhops
    cases hhops
  payload := h

theorem raw_length_bare {payload : Bytes} (h : payload.length ≤ 1024 * 1024) :
    (bare payload).raw.length = 24 + payload.length := by
  rw [raw_length (wellFormed_bare h)]
  show 24 + (0 + (payload.length + 0)) = _
  omega

def parcel (payload : Bytes) (h : payload.length ≤ 4000) : Parcel where
  packet := bare payload
  pad := some false
  wellFormed := wellFormed_bare (h.trans (by decide))
  fits := by
    rw [raw_length_bare (h.trans (by decide))]
    unfold maxPacket
    omega

theorem sizes_parcel {payload : Bytes} (h : payload.length ≤ 4000) :
    (parcel payload h).sizes = (24 + payload.length, 24 + payload.length) := by
  have hraw := raw_length_bare (h.trans (show 4000 ≤ 1024 * 1024 by decide))
  show ((bare payload).raw.length, (bare payload).raw.length) = _
  rw [hraw]

def long : Parcel := parcel (List.replicate 3976 0) (by rw [List.length_replicate]; decide)

theorem short_agrees :
    SplittingAgrees [parcel [] (Nat.zero_le _)] [((parcel [] (Nat.zero_le _)).wire, 0)] :=
  (splitting_agrees_iff _ _ ⟨rfl, by decide, isChain_singleton _⟩).mpr (by decide)

def lengths : List ℕ := 1 :: List.replicate 15 512 ++ [319]

def longChunks : List (Bytes × ℕ) :=
  (lengths.splitLengths ([long, long].flatMap Parcel.wire)).map fun bytes => (bytes, 0)

theorem sizes_long : long.sizes = (4000, 4000) := by
  unfold long
  rw [sizes_parcel, length_replicate]

theorem length_stream : ([long, long].flatMap Parcel.wire).length = lengths.sum := by
  have hwire : long.wire.length = 4000 := congrArg Prod.snd sizes_long
  rw [flatMap_cons, flatMap_singleton, length_append, hwire]
  rfl

theorem lengths_longChunks : (longChunks.map fun chunk => chunk.1.length) = lengths := by
  unfold longChunks
  rw [List.map_map]
  exact List.map_splitLengths_length _ _ (le_of_eq length_stream.symm)

theorem cut_longChunks : Cut ([long, long].flatMap Parcel.wire) longChunks where
  flatten := by
    unfold longChunks
    rw [List.map_map]
    show ((lengths.splitLengths _).map id).flatten = _
    rw [List.map_id]
    exact List.flatten_splitLengths _ _ (le_of_eq length_stream)
  sizes := by
    intro chunk hchunk
    have hmem : chunk.1.length ∈ lengths := by
      rw [← lengths_longChunks]
      exact List.mem_map.mpr ⟨chunk, hchunk, rfl⟩
    have hsmall : ∀ n ∈ lengths, 0 < n ∧ n ≤ 512 := by decide
    exact ⟨List.length_pos_iff.mp (hsmall _ hmem).1, (hsmall _ hmem).2⟩
  timely := by
    apply List.Pairwise.isChain
    apply List.Pairwise.imp_of_mem
    · intro a b ha hb _
      have hzero : ∀ chunk ∈ longChunks, chunk.2 = 0 := by
        intro chunk hchunk
        obtain ⟨bytes, -, rfl⟩ := List.mem_map.mp hchunk
        rfl
      rw [hzero a ha, hzero b hb]
      decide
    · exact List.pairwise_of_forall fun _ _ => trivial

/-- **A chunk that ends one packet and begins the next is refused.** -/
theorem long_packets_refused :
    ¬ ∀ parcels chunks, Cut (parcels.flatMap Parcel.wire) chunks → SplittingAgrees parcels chunks := by
  intro hall
  have hfits := cut_longChunks.gives_iff.mp (hall [long, long] longChunks cut_longChunks).gives
  rw [lengths_longChunks, show [long, long].map Parcel.sizes = [(4000, 4000), (4000, 4000)] by
    rw [map_cons, map_singleton, sizes_long]] at hfits
  exact absurd hfits (by decide)

end Sample

end Ble
end Conest

import Conest.Mesh.Packet

/-!
# The packet codec

A well-formed packet is read back from its wire form, padded or not (`decode_encode`). The one lemma
under it is `decodeRaw_raw`: the wire form followed by anything is read if and only if nothing
follows. Padding of 16 to 255 bytes is therefore never taken for part of a packet, and `bitchatUnpad`
removes exactly what `bitchatPad` added, whatever the packet ends with.

What is read is well formed (`wellFormed_of_decode`), so the parts of the key for duplicates lie at
known places and the key tells packets apart (`eq_of_dedupBytes`).
-/

namespace Conest
namespace Mesh

open Lib List Option

/-! ### Well-formed packets -/

variable {route : Option (List Bytes)}

/-- What a packet of the format is. -/
structure BitchatPacket.WellFormed (p : BitchatPacket) : Prop where
  version : p.version = 1 ∨ p.version = 2
  sender : p.senderId.length = senderBytes
  recipient : ∀ id ∈ p.recipientId, id.length = senderBytes
  signature : ∀ s ∈ p.signature, s.length = signatureBytes
  route : ∀ hops ∈ p.route, p.version = 2 ∧ 1 ≤ hops.length ∧ hops.length ≤ 255 ∧
    ∀ hop ∈ hops, hop.length = senderBytes
  payload : p.payload.length ≤ if p.version = 1 then 65535 else 1024 * 1024

section Parts

variable {id rest : Bytes} {hops : List Bytes}

theorem fixed_of_length (h : id.length = senderBytes) : fixed id = id := by
  unfold fixed
  rw [← h, take_length, Nat.sub_self, replicate_zero, append_nil]

theorem fixed_length (id : Bytes) : (fixed id).length = senderBytes := by
  unfold fixed
  rw [length_append, length_take, length_replicate]
  omega

theorem takeIf_some {part : Option Bytes} {count : ℕ} (h : ∀ bytes ∈ part, bytes.length = count)
    (rest : Bytes) : takeIf part.isSome count (part.getD [] ++ rest) = some (part, rest) := by
  cases part with
  | none => rfl
  | some bytes =>
    show (take? (bytes ++ rest) count).map _ = _
    rw [take?_append (h bytes rfl)]
    rfl

theorem takeHops_flatMap (h : ∀ hop ∈ hops, hop.length = senderBytes) (rest : Bytes) :
    takeHops hops.length (hops.flatMap fixed ++ rest) = some (hops, rest) := by
  induction hops with
  | nil => rfl
  | cons hop hops ih =>
  have hhop := h hop mem_cons_self
  rw [length_cons, takeHops, flatMap_cons, append_assoc, fixed_of_length hhop,
    take?_append hhop]
  simp only [bind_eq_bind, bind_some]
  rw [ih fun hop' hmem => h hop' (mem_cons_of_mem hop hmem)]
  rfl

theorem flagsOf_reads (recipient signature compressed route : Bool) :
    decide (flagsOf recipient signature compressed route &&& Flags.hasRecipient ≠ 0) = recipient ∧
    decide (flagsOf recipient signature compressed route &&& Flags.hasSignature ≠ 0) = signature ∧
    decide (flagsOf recipient signature compressed route &&& Flags.isCompressed ≠ 0) = compressed ∧
    decide (flagsOf recipient signature compressed route &&& Flags.hasRoute ≠ 0) = route := by
  revert recipient signature compressed route
  decide

theorem flagsOf_injective {r r' s s' c c' h h' : Bool} (heq : flagsOf r s c h = flagsOf r' s' c' h') :
    r = r' ∧ s = s' ∧ c = c' ∧ h = h' := by
  have hreads := flagsOf_reads r s c h
  rw [heq] at hreads
  have hreads' := flagsOf_reads r' s' c' h'
  exact ⟨hreads.1.symm.trans hreads'.1, hreads.2.1.symm.trans hreads'.2.1,
    hreads.2.2.1.symm.trans hreads'.2.2.1, hreads.2.2.2.symm.trans hreads'.2.2.2⟩

end Parts

/-! ### Reading what was written -/

namespace BitchatPacket

variable {p : BitchatPacket}

theorem takeRoute_hops (h : p.WellFormed) (rest : Bytes) :
    takeRoute (decide (2 ≤ p.version ∧ p.hops ≠ []))
      ((if 2 ≤ p.version ∧ p.hops ≠ [] then
        UInt8.ofNat p.hops.length :: p.hops.flatMap fixed else []) ++ rest) =
      some (p.route, rest) := by
  cases hroute : p.route with
  | none =>
    have hhops : p.hops = [] := by rw [hops, hroute]; rfl
    rw [hhops]
    simp [takeRoute]
  | some hops =>
  obtain ⟨hversion, hpos, hle, hlengths⟩ := h.route hops hroute
  have hhops : p.hops = hops := by rw [BitchatPacket.hops, hroute]; rfl
  have hne : hops ≠ [] := length_pos_iff.mp hpos
  have hpresent : 2 ≤ p.version ∧ hops ≠ [] := ⟨by rw [hversion]; decide, hne⟩
  rw [hhops, if_pos hpresent, decide_eq_true hpresent]
  have hfirst : take? (UInt8.ofNat hops.length :: hops.flatMap fixed ++ rest) 1 =
      some ([UInt8.ofNat hops.length], hops.flatMap fixed ++ rest) :=
    @take?_append [UInt8.ofNat hops.length] 1 rfl _
  have hcount : (UInt8.ofNat hops.length).toNat = hops.length :=
    UInt8.toNat_ofNat_of_lt' (Nat.lt_of_le_of_lt hle (by decide))
  have hnonzero : UInt8.ofNat hops.length ≠ 0 := by
    intro hzero
    rw [hzero] at hcount
    exact absurd hcount (Nat.ne_of_lt hpos)
  unfold takeRoute
  rw [if_pos rfl, hfirst]
  simp only [bind_eq_bind, bind_some]
  split
  next hzero => exact absurd hzero hnonzero
  · show (takeHops (UInt8.ofNat hops.length).toNat _).bind _ = _
    rw [hcount, takeHops_flatMap hlengths]
    rfl

theorem decodeBody_body (h : p.WellFormed) (ttl : UInt8) (extra : Bytes) :
    decodeBody p.version p.type ttl p.timestamp
      (flagsOf p.recipientId.isSome p.signature.isSome p.compressed
        (decide (2 ≤ p.version ∧ p.hops ≠ []))) p.payload.length (p.body ++ extra) =
      if extra = [] then some { p with ttl := ttl } else none := by
  obtain ⟨hrecipient, hsignature, hcompressed, hroute⟩ := flagsOf_reads p.recipientId.isSome
    p.signature.isSome p.compressed (decide (2 ≤ p.version ∧ p.hops ≠ []))
  have hroutes : decide (2 ≤ p.version ∧ flagsOf p.recipientId.isSome p.signature.isSome
      p.compressed (decide (2 ≤ p.version ∧ p.hops ≠ [])) &&& Flags.hasRoute ≠ 0) =
      decide (2 ≤ p.version ∧ p.hops ≠ []) := by
    by_cases hversion : 2 ≤ p.version
    · simpa [hversion] using hroute
    · simp [hversion]
  have hfixed : p.recipientId.map fixed = p.recipientId := by
    cases hid : p.recipientId with
    | none => rfl
    | some id => exact congrArg some (fixed_of_length (h.recipient id hid))
  unfold decodeBody body
  rw [hrecipient, hsignature, hcompressed, hroutes, hfixed, fixed_of_length h.sender]
  simp only [append_assoc]
  rw [take?_append h.sender]
  simp only [bind_eq_bind, bind_some]
  rw [takeIf_some h.recipient]
  simp only [bind_some]
  rw [takeRoute_hops h]
  simp only [bind_some]
  rw [take?_append rfl]
  simp only [bind_some]
  rw [takeIf_some h.signature]
  by_cases hextra : extra = []
  · simp [hextra]
  · simp [hextra]

theorem senderBytes_le_body (p : BitchatPacket) : senderBytes ≤ p.body.length := by
  unfold body
  rw [length_append, fixed_length]
  exact Nat.le_add_right _ _

/-- **A packet says how long it is.** Its wire form, with any number of hops to go, is read back, and
with anything after it nothing is. -/
theorem decodeRaw_raw (h : p.WellFormed) (ttl : UInt8) (extra : Bytes) :
    decodeRaw (p.raw.set 2 ttl ++ extra) =
      if extra = [] then some { p with ttl := ttl } else none := by
  have hbody := senderBytes_le_body p
  have hwidth : 2 ≤ lengthBytes p.version := by
    unfold lengthBytes
    split
    · decide
    · decide
  -- the payload's length fits in its field
  have hfits : p.payload.length < 256 ^ lengthBytes p.version := by
    have hle := h.payload
    rcases h.version with hversion | hversion
    · rw [hversion] at hle ⊢
      exact Nat.lt_of_le_of_lt hle (by decide)
    · rw [hversion] at hle ⊢
      exact Nat.lt_of_le_of_lt hle (by decide)
  have hsize : ofBigEndian (bigEndian (lengthBytes p.version) p.payload.length) =
      p.payload.length := by
    rw [ofBigEndian_bigEndian, Nat.mod_eq_of_lt hfits]
  have hmax : ¬ 1024 * 1024 < p.payload.length := by
    have hle := h.payload
    split at hle
    · omega
    · omega
  have htimestamp : UInt64.ofNat (ofBigEndian (bigEndian 8 p.timestamp.toNat)) = p.timestamp := by
    have hlt : p.timestamp.toNat < 256 ^ 8 := p.timestamp.toNat_lt
    rw [ofBigEndian_bigEndian, Nat.mod_eq_of_lt hlt, UInt64.ofNat_toNat]
  have hknown : ¬ (p.version ≠ 1 ∧ p.version ≠ 2) := by
    rintro ⟨hone, htwo⟩
    exact h.version.elim hone htwo
  obtain ⟨a, b, c, d, e, f, g, i, hbytes⟩ : ∃ a b c d e f g i : UInt8,
      bigEndian 8 p.timestamp.toNat = [a, b, c, d, e, f, g, i] := ⟨_, _, _, _, _, _, _, _, rfl⟩
  rw [hbytes] at htimestamp
  generalize hflags : flagsOf p.recipientId.isSome p.signature.isSome p.compressed
    (decide (2 ≤ p.version ∧ p.hops ≠ [])) = flags
  have hshape : p.raw.set 2 ttl ++ extra =
      p.version :: p.type :: ttl :: a :: b :: c :: d :: e :: f :: g :: i :: flags ::
        (bigEndian (lengthBytes p.version) p.payload.length ++ (p.body ++ extra)) := by
    unfold raw
    rw [hbytes, hflags, ← append_assoc]
    rfl
  rw [hshape]
  have hlong : ¬ (p.version :: p.type :: ttl :: a :: b :: c :: d :: e :: f :: g :: i :: flags ::
      (bigEndian (lengthBytes p.version) p.payload.length ++ (p.body ++ extra))).length <
      14 + senderBytes := by
    simp only [length_cons, length_append, bigEndian_length]
    omega
  unfold decodeRaw
  rw [if_neg hlong]
  show (if p.version ≠ 1 ∧ p.version ≠ 2 then none else
    if 1024 * 1024 < ofBigEndian ((bigEndian (lengthBytes p.version) p.payload.length ++
      (p.body ++ extra)).take (lengthBytes p.version)) then none else
    decodeBody p.version p.type ttl (UInt64.ofNat (ofBigEndian [a, b, c, d, e, f, g, i])) flags
      (ofBigEndian ((bigEndian (lengthBytes p.version) p.payload.length ++
        (p.body ++ extra)).take (lengthBytes p.version)))
      (drop (12 + lengthBytes p.version) _)) = _
  rw [if_neg hknown, take_left' (bigEndian_length _ _), hsize, if_neg hmax, htimestamp,
    ← drop_drop]
  show decodeBody p.version p.type ttl p.timestamp flags p.payload.length
    (drop (lengthBytes p.version)
      (bigEndian (lengthBytes p.version) p.payload.length ++ (p.body ++ extra))) = _
  rw [drop_left' (bigEndian_length _ _), ← hflags, decodeBody_body h]

/-! ### Padding -/

theorem bitchatUnpad_append {data : Bytes} {needed : ℕ} (hpos : 0 < needed) (hle : needed ≤ 255) :
    bitchatUnpad (data ++ List.replicate needed (UInt8.ofNat needed)) = data := by
  have hvalue : (UInt8.ofNat needed).toNat = needed :=
    UInt8.toNat_ofNat_of_lt' (Nat.lt_of_le_of_lt hle (by decide))
  have hlast : (data ++ replicate needed (UInt8.ofNat needed)).getLast? =
      some (UInt8.ofNat needed) := by
    rw [getLast?_append, getLast?_replicate, if_neg (Nat.ne_of_gt hpos)]
    rfl
  have hnonzero : UInt8.ofNat needed ≠ 0 := by
    intro hzero
    rw [hzero] at hvalue
    exact absurd hvalue (Nat.ne_of_lt hpos)
  have hlength : (data ++ replicate needed (UInt8.ofNat needed)).length =
      data.length + needed := by
    rw [length_append, length_replicate]
  unfold bitchatUnpad
  rw [hlast]
  simp only
  rw [hvalue, hlength, if_neg (by rintro (hzero | hlt); exacts [hnonzero hzero, by omega]),
    Nat.add_sub_cancel, drop_left, if_pos, take_left]
  rw [List.all_eq_true]
  intro byte hbyte
  exact decide_eq_true (eq_of_mem_replicate hbyte)

theorem bitchatPad_cases (data : Bytes) :
    bitchatPad data = data ∨ ∃ needed, 0 < needed ∧ needed ≤ 255 ∧
      bitchatPad data = data ++ replicate needed (UInt8.ofNat needed) := by
  unfold bitchatPad
  simp only
  split
  · exact .inl rfl
  next hneeded =>
  exact .inr ⟨_, by omega, by omega, rfl⟩

theorem set_bitchatPad {data : Bytes} (hlong : 2 < data.length) (ttl : UInt8) :
    bitchatPad (data.set 2 ttl) = (bitchatPad data).set 2 ttl := by
  unfold bitchatPad
  simp only [length_set]
  split
  · rfl
  · rw [set_append_left _ _ hlong]

/-- **The round trip.** A packet is read from its wire form, padded or not and with any number of
hops to go. -/
theorem decode_encode_set (h : p.WellFormed) (pad : Option Bool) (ttl : UInt8) :
    decode ((p.encode pad).set 2 ttl) = some { p with ttl := ttl } := by
  have hplain : decodeRaw (p.raw.set 2 ttl) = some { p with ttl := ttl } := by
    have hread := decodeRaw_raw h ttl []
    rwa [append_nil] at hread
  have hlong : 2 < p.raw.length := by
    unfold raw
    simp only [length_cons, length_append, bigEndian_length]
    omega
  unfold decode encode
  split
  · rw [← set_bitchatPad hlong]
    rcases bitchatPad_cases (p.raw.set 2 ttl) with hsame | ⟨needed, hpos, hle, hpadded⟩
    · rw [hsame, hplain]
      rfl
    -- padding is not read as part of the packet
    have hnot := decodeRaw_raw h ttl (replicate needed (UInt8.ofNat needed))
    rw [if_neg (by simp [Nat.ne_of_gt hpos])] at hnot
    rw [hpadded, hnot, bitchatUnpad_append hpos hle, hplain]
    rfl
  · rw [hplain]
    rfl

theorem encode_shape (p : BitchatPacket) (pad : Option Bool) :
    ∃ tail, p.encode pad = p.version :: p.type :: p.ttl :: tail := by
  unfold encode
  split
  · rcases bitchatPad_cases p.raw with hsame | ⟨needed, -, -, hpadded⟩
    · exact ⟨_, hsame⟩
    · exact ⟨_, hpadded⟩
  · exact ⟨_, rfl⟩

theorem decode_encode (h : p.WellFormed) (pad : Option Bool) : decode (p.encode pad) = some p := by
  have hread := decode_encode_set h pad p.ttl
  obtain ⟨tail, htail⟩ := p.encode_shape pad
  rw [htail] at hread ⊢
  exact hread

end BitchatPacket

/-! ### What is read -/

section Read

variable {data rest rest' : Bytes} {p q : BitchatPacket}

theorem length_of_takeIf {present : Bool} {count : ℕ} {part : Option Bytes}
    (h : takeIf present count rest = some (part, rest')) : ∀ bytes ∈ part, bytes.length = count := by
  intro bytes hbytes
  unfold takeIf at h
  split at h
  · obtain ⟨⟨front, rest''⟩, htake, hpair⟩ := map_eq_some_iff.mp h
    cases hpair
    rw [← some.inj hbytes]
    exact (take?_eq_some htake).2
  · cases h
    cases hbytes

theorem lengths_of_takeHops {count : ℕ} {hops : List Bytes}
    (h : takeHops count rest = some (hops, rest')) :
    hops.length = count ∧ ∀ hop ∈ hops, hop.length = senderBytes := by
  induction count generalizing rest hops with
  | zero =>
    cases h
    exact ⟨rfl, fun _ hop => nomatch hop⟩
  | succ count ih =>
  obtain ⟨⟨hop, rest₁⟩, htake, h⟩ := bind_eq_some_iff.mp h
  obtain ⟨⟨hops', rest₂⟩, hhops, h⟩ := bind_eq_some_iff.mp h
  cases h
  obtain ⟨hlength, hlengths⟩ := ih hhops
  refine ⟨congrArg Nat.succ hlength, fun hop' hmem => ?_⟩
  rcases mem_cons.mp hmem with rfl | hmem
  · exact (take?_eq_some htake).2
  · exact hlengths hop' hmem

theorem hops_of_takeRoute {present : Bool} (h : takeRoute present rest = some (route, rest')) :
    ∀ hops ∈ route, present = true ∧ 1 ≤ hops.length ∧ hops.length ≤ 255 ∧
      ∀ hop ∈ hops, hop.length = senderBytes := by
  intro hops hhops
  unfold takeRoute at h
  split at h
  swap
  · cases h
    cases hhops
  next hpresent =>
  obtain ⟨⟨count, rest₁⟩, -, h⟩ := bind_eq_some_iff.mp h
  dsimp only at h
  split at h
  · cases h
    cases hhops
  next hnonzero =>
  obtain ⟨⟨hops', rest₂⟩, htaken, h⟩ := bind_eq_some_iff.mp h
  cases h
  obtain rfl := some.inj hhops
  obtain ⟨hlength, hlengths⟩ := lengths_of_takeHops htaken
  refine ⟨hpresent, ?_, ?_, hlengths⟩
  · rw [hlength]
    refine Nat.one_le_iff_ne_zero.mpr fun hzero => hnonzero ?_
    exact UInt8.toNat_inj.mp hzero
  · rw [hlength]
    exact Nat.le_of_lt_succ (count.headD 0).toNat_lt

/-! What is left to read is the end of what there was to read. -/

theorem take?_suffix {count : ℕ} {front : Bytes} (h : take? rest count = some (front, rest')) :
    rest' <:+ rest := by
  rw [(take?_eq_some h).1]
  exact suffix_append _ _

theorem takeIf_suffix {present : Bool} {count : ℕ} {part : Option Bytes}
    (h : takeIf present count rest = some (part, rest')) : rest' <:+ rest := by
  unfold takeIf at h
  split at h
  · obtain ⟨⟨front, rest''⟩, htake, hpair⟩ := map_eq_some_iff.mp h
    cases hpair
    exact take?_suffix htake
  · cases h
    exact suffix_refl _

theorem takeHops_suffix {count : ℕ} {hops : List Bytes}
    (h : takeHops count rest = some (hops, rest')) : rest' <:+ rest := by
  induction count generalizing rest hops with
  | zero =>
    cases h
    exact suffix_refl _
  | succ count ih =>
    obtain ⟨⟨hop, rest₁⟩, htake, h⟩ := bind_eq_some_iff.mp h
    obtain ⟨⟨hops', rest₂⟩, hhops, h⟩ := bind_eq_some_iff.mp h
    cases h
    exact (ih hhops).trans (take?_suffix htake)

theorem takeRoute_suffix {present : Bool} (h : takeRoute present rest = some (route, rest')) :
    rest' <:+ rest := by
  unfold takeRoute at h
  split at h
  swap
  · cases h
    exact suffix_refl _
  obtain ⟨⟨count, rest₁⟩, hcount, h⟩ := bind_eq_some_iff.mp h
  dsimp only at h
  split at h
  · cases h
    exact take?_suffix hcount
  obtain ⟨⟨hops, rest₂⟩, htaken, h⟩ := bind_eq_some_iff.mp h
  cases h
  exact (takeHops_suffix htaken).trans (take?_suffix hcount)

/-- **What is read without padding is well formed**, and its payload no longer than the bytes that it
was read from. -/
theorem decodeRaw_sound (h : decodeRaw data = some p) :
    p.WellFormed ∧ p.payload.length ≤ data.length := by
  unfold decodeRaw at h
  split at h
  · cases h
  simp only at h
  split at h
  · cases h
  next hversion =>
  split at h
  · cases h
  next hmax =>
  obtain ⟨⟨sender, rest₁⟩, hsender, h⟩ := bind_eq_some_iff.mp h
  obtain ⟨⟨recipient, rest₂⟩, hrecipient, h⟩ := bind_eq_some_iff.mp h
  obtain ⟨⟨route, rest₃⟩, hroute, h⟩ := bind_eq_some_iff.mp h
  obtain ⟨⟨payload, rest₄⟩, hpayload, h⟩ := bind_eq_some_iff.mp h
  obtain ⟨⟨signature, rest₅⟩, hsignature, h⟩ := bind_eq_some_iff.mp h
  simp only at h
  split at h
  · cases h
  cases h
  have hknown : data.getD 0 0 = 1 ∨ data.getD 0 0 = 2 := by
    by_contra hnot
    rw [not_or] at hnot
    exact hversion hnot
  have hrest : rest₃ <:+ data := calc
    rest₃ <:+ rest₂ := takeRoute_suffix hroute
    _ <:+ rest₁ := takeIf_suffix hrecipient
    _ <:+ data.drop _ := take?_suffix hsender
    _ <:+ data := drop_suffix _ _
  have hfront : payload <+: rest₃ := by
    rw [(take?_eq_some hpayload).1]
    exact prefix_append _ _
  refine ⟨⟨hknown, (take?_eq_some hsender).2, length_of_takeIf hrecipient,
    length_of_takeIf hsignature, ?_, ?_⟩, hfront.length_le.trans hrest.length_le⟩
  · intro hops hhops
    obtain ⟨hpresent, hrest⟩ := hops_of_takeRoute hroute hops hhops
    refine ⟨?_, hrest⟩
    rcases hknown with hone | htwo
    · rw [hone] at hpresent
      exact absurd (of_decide_eq_true hpresent).1 (by decide)
    · exact htwo
  · show payload.length ≤ _
    rw [(take?_eq_some hpayload).2]
    split
    · -- a length of two bytes
      next hone =>
      change data.getD 0 0 = 1 at hone
      have hlt := ofBigEndian_lt ((data.drop 12).take (lengthBytes (data.getD 0 0)))
      have hwidth : ((data.drop 12).take (lengthBytes (data.getD 0 0))).length ≤ 2 := by
        rw [hone]
        exact length_take_le 2 _
      have hpow := Nat.pow_le_pow_right (show 0 < 256 by decide) hwidth
      omega
    · omega

theorem wellFormed_of_decode (h : decode data = some p) : p.WellFormed := by
  rcases or_eq_some_iff.mp h with hplain | ⟨-, hunpadded⟩
  · exact (decodeRaw_sound hplain).1
  · exact (decodeRaw_sound hunpadded).1

theorem payload_le_of_decode (h : decode data = some p) : p.payload.length ≤ data.length := by
  rcases or_eq_some_iff.mp h with hplain | ⟨-, hunpadded⟩
  · exact (decodeRaw_sound hplain).2
  have hunpad : (bitchatUnpad data).length ≤ data.length := by
    unfold bitchatUnpad
    split
    · exact le_rfl
    split
    · exact le_rfl
    · split
      · exact length_take_le' _ _
      · exact le_rfl
  exact (decodeRaw_sound hunpadded).2.trans hunpad

theorem eq_of_dedupBytes (hp : p.WellFormed) (hq : q.WellFormed) (h : p.dedupBytes = q.dedupBytes) :
    p.version = q.version ∧ p.type = q.type ∧ p.dedupFlags = q.dedupFlags ∧
      p.senderId = q.senderId ∧ p.timestamp = q.timestamp ∧ p.recipientId = q.recipientId ∧
      p.payload = q.payload := by
  obtain ⟨hversion, h⟩ := cons.inj h
  obtain ⟨htype, h⟩ := cons.inj h
  obtain ⟨hflags, h⟩ := cons.inj h
  obtain ⟨hsender, h⟩ := append_inj h (hp.sender.trans hq.sender.symm)
  obtain ⟨htime, h⟩ := append_inj h (by rw [bigEndian_length, bigEndian_length])
  have htimestamp : p.timestamp = q.timestamp := by
    have hnumber := congrArg ofBigEndian htime
    rw [ofBigEndian_bigEndian, ofBigEndian_bigEndian] at hnumber
    have hp' : p.timestamp.toNat < 256 ^ 8 := p.timestamp.toNat_lt
    have hq' : q.timestamp.toNat < 256 ^ 8 := q.timestamp.toNat_lt
    rw [Nat.mod_eq_of_lt hp', Nat.mod_eq_of_lt hq'] at hnumber
    exact UInt64.toNat_inj.mp hnumber
  -- the flags say whether there is a recipient
  have hpresent : p.recipientId.isSome = q.recipientId.isSome := (flagsOf_injective hflags).1
  have hrest : p.recipientId = q.recipientId ∧ p.payload = q.payload := by
    cases hpr : p.recipientId with
    | none =>
      cases hqr : q.recipientId with
      | none =>
        rw [hpr, hqr] at h
        exact ⟨rfl, h⟩
      | some id => rw [hpr, hqr] at hpresent; cases hpresent
    | some id =>
    cases hqr : q.recipientId with
    | none => rw [hpr, hqr] at hpresent; cases hpresent
    | some id' =>
      rw [hpr, hqr] at h
      have hlengths := (hp.recipient id hpr).trans (hq.recipient id' hqr).symm
      obtain ⟨hid, hpayload⟩ := append_inj h hlengths
      exact ⟨congrArg some hid, hpayload⟩
  exact ⟨hversion, htype, hflags, hsender, htimestamp, hrest⟩

end Read

/-- **The codec.** A well-formed packet is read back from its wire form, padded or not; with another
number of hops to go it is the same packet with that number, under the same key and with the same
bytes to sign; and the bytes under the key tell what is read apart. -/
theorem packet_codec (sha256 : Bytes → DartString) :
    (∀ p : BitchatPacket, p.WellFormed → ∀ pad : Option Bool,
      decode (p.encode pad) = some p ∧
      ∀ ttl, ∃ q, decode ((p.encode pad).set 2 ttl) = some q ∧ q = { p with ttl := ttl } ∧
        q.dedupKey sha256 = p.dedupKey sha256 ∧ q.bytesToSign = p.bytesToSign) ∧
    ∀ (x y : Bytes) (p q : BitchatPacket), decode x = some p → decode y = some q →
      p.dedupBytes = q.dedupBytes →
      p.version = q.version ∧ p.type = q.type ∧
        (p.recipientId.isSome = q.recipientId.isSome ∧ p.signature.isSome = q.signature.isSome ∧
          p.compressed = q.compressed ∧ (p.hops ≠ [] ↔ q.hops ≠ [])) ∧
        p.senderId = q.senderId ∧ p.timestamp = q.timestamp ∧ p.recipientId = q.recipientId ∧
        p.payload = q.payload := by
  refine ⟨fun p hp pad => ⟨BitchatPacket.decode_encode hp pad, fun ttl => ?_⟩, ?_⟩
  · exact ⟨{ p with ttl := ttl }, BitchatPacket.decode_encode_set hp pad ttl, rfl, rfl, rfl⟩
  · intro x y p q hx hy hsame
    obtain ⟨hversion, htype, hflags, hrest⟩ :=
      eq_of_dedupBytes (wellFormed_of_decode hx) (wellFormed_of_decode hy) hsame
    obtain ⟨hrecipient, hsignature, hcompressed, hroute⟩ := flagsOf_injective hflags
    exact ⟨hversion, htype, ⟨hrecipient, hsignature, hcompressed, decide_eq_decide.mp hroute⟩, hrest⟩

/-! ### Two forms of one packet -/

namespace Sample

def greeting : BitchatPacket where
  version := 1
  type := BitchatType.message
  ttl := 7
  timestamp := 1000
  senderId := [1, 2, 3, 4, 5, 6, 7, 8]
  recipientId := none
  route := none
  payload := [3, 3, 3]
  compressed := false
  signature := none

theorem wellFormed_greeting : greeting.WellFormed where
  version := .inl rfl
  sender := rfl
  recipient _ h := nomatch h
  signature _ h := nomatch h
  route _ h := nomatch h
  payload := by decide

theorem packet_codec_greeting : decode (greeting.encode (some true)) = some greeting :=
  ((packet_codec fun _ => []).1 greeting wellFormed_greeting (some true)).1

theorem unknown_flag :
    decode greeting.raw = some greeting ∧ decode (greeting.raw.set 11 0x10) = some greeting ∧
      greeting.raw[11]? = some 0 ∧ (greeting.raw.set 11 0x10)[11]? = some 0x10 := by
  decide

end Sample

end Mesh
end Conest

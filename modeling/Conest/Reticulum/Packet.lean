import Conest.Reticulum.Identity

/-!
# Reticulum packets

A packet is a byte of flags, the hops, the id of the next transport node if there is one, the hash
of the destination, a context and the data. The flags say whether there is a transport id, twice: in
the bit of the header type and in that of the transport type.

A well-formed packet is read back from its bytes (`unpack_raw`), and what is read is written back
as it was where the two bits agree and the first is clear (`raw_of_unpack`). The hash is of the parts
that do not change on the way (`hash_ignores`), and its input tells packets apart up to those that
do (`eq_of_hashInput`).
-/

namespace Conest
namespace Reticulum

open Lib List Option

namespace RnsPacketType

def data : ℕ := 0
def announce : ℕ := 1
def linkRequest : ℕ := 2
def proof : ℕ := 3

end RnsPacketType

namespace RnsDestinationType

def single : ℕ := 0
def group : ℕ := 1
def plain : ℕ := 2
def link : ℕ := 3

end RnsDestinationType

namespace RnsContext

def none : ℕ := 0x00
def pathResponse : ℕ := 0x0b

end RnsContext

def rnsMtu : ℕ := 500

def rnsEncryptedMdu : ℕ := 383

structure RnsPacket where
  packetType : ℕ
  destinationType : ℕ
  destinationHash : Bytes
  data : Bytes
  context : ℕ := RnsContext.none
  contextFlag : Bool := false
  hops : ℕ := 0
  transportId : Option Bytes := none
deriving DecidableEq

/-- The flags of a packet. -/
def flagsOf (transport contextFlag : Bool) (destinationType packetType : ℕ) : ℕ :=
  (if transport then 1 else 0) <<< 6 ||| (if contextFlag then 1 else 0) <<< 5 |||
    (if transport then 1 else 0) <<< 4 ||| destinationType <<< 2 ||| packetType

namespace RnsPacket

variable (p : RnsPacket)

def flags : ℕ := flagsOf p.transportId.isSome p.contextFlag p.destinationType p.packetType

/-- The bytes of the packet. A list of bytes keeps the low eight bits of each number. -/
def raw : Bytes :=
  UInt8.ofNat p.flags :: UInt8.ofNat p.hops :: (p.transportId.getD [] ++ (p.destinationHash ++
    UInt8.ofNat p.context :: p.data))

def pack : Except String Bytes :=
  if rnsMtu < p.raw.length then .error "Reticulum packet exceeds the MTU." else .ok p.raw

/-- `none` where the packet is malformed. -/
def unpack (raw : Bytes) : Option RnsPacket :=
  if raw.length < 2 + rnsTruncatedHashBytes + 1 + 1 ∨ rnsMtu < raw.length then none
  else
    let flags := (raw.getD 0 0).toNat
    let headerType := (flags >>> 6) &&& 1
    let hops := (raw.getD 1 0).toNat
    if 128 ≤ hops then none
    else if headerType = 1 ∧ raw.length < 2 + 2 * rnsTruncatedHashBytes + 2 then none
    else
      let transportId :=
        if headerType = 1 then some ((raw.drop 2).take rnsTruncatedHashBytes) else none
      let offset := if headerType = 1 then 2 + rnsTruncatedHashBytes else 2
      let destination := (raw.drop offset).take rnsTruncatedHashBytes
      let offset := offset + rnsTruncatedHashBytes
      some
        { packetType := flags &&& 3
          destinationType := (flags >>> 2) &&& 3
          destinationHash := destination
          data := raw.drop (offset + 1)
          context := (raw.getD offset 0).toNat
          contextFlag := decide ((flags >>> 5) &&& 1 = 1)
          hops
          transportId }

/-- What the hash is of: everything but the hops and the transport id. -/
def hashInput : Bytes :=
  UInt8.ofNat (p.flags &&& 0x0f) :: (p.destinationHash ++ UInt8.ofNat p.context :: p.data)

def hash (c : Primitives) : Bytes := rnsFullHash c p.hashInput

/-- The types in two bits, the hashes in sixteen bytes, the context in one, and hops that are read.
-/
structure WellFormed : Prop where
  packetType : p.packetType < 4
  destinationType : p.destinationType < 4
  destinationHash : p.destinationHash.length = rnsTruncatedHashBytes
  context : p.context < 256
  hops : p.hops < 128
  transportId : ∀ id ∈ p.transportId, id.length = rnsTruncatedHashBytes

end RnsPacket

/-! ### Flags -/

section Flags

variable {transport contextFlag : Bool} {destinationType packetType : ℕ}

theorem flagsOf_reads (transport contextFlag : Bool) (hdestination : destinationType < 4)
    (hpacket : packetType < 4) :
    flagsOf transport contextFlag destinationType packetType < 256 ∧
    ((flagsOf transport contextFlag destinationType packetType >>> 6) &&& 1 = 1 ↔
      transport = true) ∧
    decide ((flagsOf transport contextFlag destinationType packetType >>> 5) &&& 1 = 1) =
      contextFlag ∧
    (flagsOf transport contextFlag destinationType packetType >>> 2) &&& 3 = destinationType ∧
    flagsOf transport contextFlag destinationType packetType &&& 3 = packetType := by
  have hall : ∀ (transport contextFlag : Bool) (d p : Fin 4),
      flagsOf transport contextFlag d p < 256 ∧
      ((flagsOf transport contextFlag d p >>> 6) &&& 1 = 1 ↔ transport = true) ∧
      decide ((flagsOf transport contextFlag d p >>> 5) &&& 1 = 1) = contextFlag ∧
      (flagsOf transport contextFlag d p >>> 2) &&& 3 = (d : ℕ) ∧
      flagsOf transport contextFlag d p &&& 3 = (p : ℕ) := by decide
  exact hall transport contextFlag ⟨destinationType, hdestination⟩ ⟨packetType, hpacket⟩

theorem flagsOf_read {flags : ℕ} (h : flags < 256) (hclear : (flags >>> 7) &&& 1 = 0)
    (hagree : (flags >>> 6) &&& 1 = (flags >>> 4) &&& 1) :
    flagsOf (decide ((flags >>> 6) &&& 1 = 1)) (decide ((flags >>> 5) &&& 1 = 1))
      ((flags >>> 2) &&& 3) (flags &&& 3) = flags := by
  have hall : ∀ flags < 256, (flags >>> 7) &&& 1 = 0 → (flags >>> 6) &&& 1 = (flags >>> 4) &&& 1 →
      flagsOf (decide ((flags >>> 6) &&& 1 = 1)) (decide ((flags >>> 5) &&& 1 = 1))
        ((flags >>> 2) &&& 3) (flags &&& 3) = flags := by decide +kernel
  exact hall flags h hclear hagree

theorem flagsOf_low (transport contextFlag : Bool) (destinationType packetType : ℕ) :
    flagsOf transport contextFlag destinationType packetType &&& 0x0f =
      (destinationType <<< 2 ||| packetType) &&& 0x0f := by
  have hhigh : ∀ transport contextFlag : Bool,
      ((if transport then 1 else 0) <<< 6 ||| (if contextFlag then 1 else 0) <<< 5 |||
        (if transport then 1 else 0) <<< 4) &&& 0x0f = 0 := by decide
  unfold flagsOf
  rw [Nat.or_assoc _ (destinationType <<< 2), Nat.and_or_distrib_right, hhigh, Nat.zero_or]

end Flags

/-! ### Reading what was written -/

namespace RnsPacket

variable {p : RnsPacket}

theorem read_body {front destination data : Bytes} {context : UInt8} {start : ℕ}
    (hfront : front.length = start) (h : destination.length = rnsTruncatedHashBytes) :
    let raw := front ++ (destination ++ context :: data)
    (raw.drop start).take rnsTruncatedHashBytes = destination ∧
    raw.getD (start + rnsTruncatedHashBytes) 0 = context ∧
    raw.drop (start + rnsTruncatedHashBytes + 1) = data := by
  have hbody : (front ++ (destination ++ context :: data)).drop (start + rnsTruncatedHashBytes) =
      context :: data := by
    rw [← drop_drop, drop_left' hfront, drop_left' h]
  refine ⟨?_, ?_, ?_⟩
  · rw [drop_left' hfront, take_left' h]
  · rw [getD_eq_getElem?_getD, ← head?_drop, hbody]
    rfl
  · rw [← drop_drop, hbody]
    rfl

theorem length_raw (h : p.WellFormed) :
    p.raw.length =
      2 + (p.transportId.getD []).length + rnsTruncatedHashBytes + 1 + p.data.length := by
  unfold raw
  simp only [length_cons, length_append, h.destinationHash]
  omega

theorem flags_reads (h : p.WellFormed) :
    p.flags < 256 ∧ ((p.flags >>> 6) &&& 1 = 1 ↔ p.transportId.isSome = true) ∧
    decide ((p.flags >>> 5) &&& 1 = 1) = p.contextFlag ∧
    (p.flags >>> 2) &&& 3 = p.destinationType ∧ p.flags &&& 3 = p.packetType :=
  flagsOf_reads p.transportId.isSome p.contextFlag h.destinationType h.packetType

theorem unpack_raw (h : p.WellFormed) (hdata : p.data ≠ []) (hmtu : p.raw.length ≤ rnsMtu) :
    unpack p.raw = some p := by
  obtain ⟨hbyte, hheader, hcontextFlag, hdestination, htype⟩ := flags_reads h
  have hflags : (UInt8.ofNat p.flags).toNat = p.flags := UInt8.toNat_ofNat_of_lt' hbyte
  have hhops : (UInt8.ofNat p.hops).toNat = p.hops :=
    UInt8.toNat_ofNat_of_lt' (Nat.lt_trans h.hops (by decide))
  have hcontext : (UInt8.ofNat p.context).toNat = p.context := UInt8.toNat_ofNat_of_lt' h.context
  have hlength := length_raw h
  have hpos : 0 < p.data.length := length_pos_iff.mpr hdata
  have hfirst : p.raw.getD 0 0 = UInt8.ofNat p.flags := rfl
  have hsecond : p.raw.getD 1 0 = UInt8.ofNat p.hops := rfl
  unfold unpack
  rw [if_neg (by rw [hlength]; omega)]
  simp only [hfirst, hsecond, hflags, hhops]
  rw [if_neg (Nat.not_le.mpr h.hops), hcontextFlag, hdestination, htype]
  cases htransport : p.transportId with
  | none =>
    rw [htransport] at hheader
    have hnone : ¬ (p.flags >>> 6) &&& 1 = 1 := fun hone => nomatch hheader.mp hone
    have hraw : p.raw = [UInt8.ofNat p.flags, UInt8.ofNat p.hops] ++
        (p.destinationHash ++ UInt8.ofNat p.context :: p.data) := by
      unfold raw
      rw [htransport]
      rfl
    obtain ⟨hread, hreadContext, hreadData⟩ := @read_body [UInt8.ofNat p.flags, UInt8.ofNat p.hops]
      p.destinationHash p.data (UInt8.ofNat p.context) 2 rfl h.destinationHash
    rw [← hraw] at hread hreadContext hreadData
    rw [if_neg fun hlong => hnone hlong.1]
    simp only [if_neg hnone, hread, hreadContext, hreadData, hcontext]
    rw [← htransport]
  | some id =>
    have hid : id.length = rnsTruncatedHashBytes := h.transportId id htransport
    rw [htransport] at hheader
    have hsome : (p.flags >>> 6) &&& 1 = 1 := hheader.mpr rfl
    have hraw : p.raw = ([UInt8.ofNat p.flags, UInt8.ofNat p.hops] ++ id) ++
        (p.destinationHash ++ UInt8.ofNat p.context :: p.data) := by
      unfold raw
      rw [htransport]
      rfl
    obtain ⟨hread, hreadContext, hreadData⟩ :=
      @read_body ([UInt8.ofNat p.flags, UInt8.ofNat p.hops] ++ id) p.destinationHash p.data
        (UInt8.ofNat p.context) (2 + rnsTruncatedHashBytes)
        (by rw [length_append, hid]; rfl) h.destinationHash
    rw [← hraw] at hread hreadContext hreadData
    have hreadId : (p.raw.drop 2).take rnsTruncatedHashBytes = id := by
      rw [hraw]
      exact take_left' hid
    rw [if_neg]
    swap
    · rw [hlength, htransport, getD_some]
      omega
    simp only [if_pos hsome, hread, hreadId, hreadContext, hreadData, hcontext]
    rw [← htransport]

/-! ### Writing what was read -/

theorem split_body {raw : Bytes} {start : ℕ} (h : start + rnsTruncatedHashBytes < raw.length) :
    raw.drop start = (raw.drop start).take rnsTruncatedHashBytes ++
      raw.getD (start + rnsTruncatedHashBytes) 0 ::
        raw.drop (start + rnsTruncatedHashBytes + 1) := by
  have hget : raw.getD (start + rnsTruncatedHashBytes) 0 = raw[start + rnsTruncatedHashBytes] := by
    rw [getD_eq_getElem?_getD, getElem?_eq_getElem h]
    rfl
  calc raw.drop start
      = (raw.drop start).take rnsTruncatedHashBytes ++
          (raw.drop start).drop rnsTruncatedHashBytes := (take_append_drop _ _).symm
    _ = (raw.drop start).take rnsTruncatedHashBytes ++
          raw.drop (start + rnsTruncatedHashBytes) := by rw [drop_drop]
    _ = _ := by rw [hget, ← drop_eq_getElem_cons h]

theorem split_front {raw : Bytes} (h : 2 ≤ raw.length) :
    raw = raw.getD 0 0 :: raw.getD 1 0 :: raw.drop 2 := by
  match raw, h with
  | _ :: _ :: _, _ => rfl

theorem le_mtu_of_unpack {raw : Bytes} (h : unpack raw = some p) : raw.length ≤ rnsMtu := by
  unfold unpack at h
  split at h
  · cases h
  next hlength => exact Nat.not_lt.mp (not_or.mp hlength).2

/-- **What is read is written back** as it was, where the flags are those of a packet. -/
theorem raw_of_unpack {raw : Bytes} (h : unpack raw = some p)
    (hclear : ((raw.getD 0 0).toNat >>> 7) &&& 1 = 0)
    (hagree : ((raw.getD 0 0).toNat >>> 6) &&& 1 = ((raw.getD 0 0).toNat >>> 4) &&& 1) :
    p.raw = raw := by
  unfold unpack at h
  split at h
  · cases h
  next hlength =>
  simp only at h
  split at h
  · cases h
  next hhops =>
  split at h
  · cases h
  next hlong =>
  have hflags := flagsOf_read (raw.getD 0 0).toNat_lt hclear hagree
  have hfront : raw = raw.getD 0 0 :: raw.getD 1 0 :: raw.drop 2 := split_front (by omega)
  by_cases hheader : ((raw.getD 0 0).toNat >>> 6) &&& 1 = 1
  · simp only [if_pos hheader] at h
    cases h
    rw [decide_eq_true hheader] at hflags
    unfold RnsPacket.raw flags
    simp only [isSome_some, getD_some, hflags, UInt8.ofNat_toNat]
    rw [← split_body (by omega), ← drop_drop, take_append_drop, ← hfront]
  simp only [if_neg hheader] at h
  cases h
  rw [decide_eq_false hheader] at hflags
  unfold RnsPacket.raw flags
  simp only [isSome_none, getD_none, hflags, UInt8.ofNat_toNat, nil_append]
  rw [← split_body (by omega), ← hfront]

theorem pack_of_le (hmtu : p.raw.length ≤ rnsMtu) : p.pack = .ok p.raw :=
  if_neg (Nat.not_lt.mpr hmtu)

/-! ### The hash -/

theorem hash_ignores (c : Primitives) (p : RnsPacket) (hops : ℕ) (transportId : Option Bytes) :
    hash { p with hops, transportId } c = p.hash c := by
  unfold hash hashInput flags
  rw [flagsOf_low, flagsOf_low]

/-- **Different packets have different inputs of the hash**, up to what changes on the way and the
flag of the context. -/
theorem eq_of_hashInput {q : RnsPacket} (hp : p.WellFormed) (hq : q.WellFormed)
    (h : p.hashInput = q.hashInput) :
    p.packetType = q.packetType ∧ p.destinationType = q.destinationType ∧
      p.destinationHash = q.destinationHash ∧ p.context = q.context ∧ p.data = q.data := by
  have htypes : ∀ d t d' t' : Fin 4, (d.1 <<< 2 ||| t.1) &&& 0x0f = (d'.1 <<< 2 ||| t'.1) &&& 0x0f →
      t.1 = t'.1 ∧ d.1 = d'.1 := by decide +kernel
  have hsmall : ∀ n : ℕ, n &&& 0x0f < 256 := fun n =>
    Nat.lt_of_le_of_lt Nat.and_le_right (by decide)
  unfold hashInput flags at h
  rw [flagsOf_low, flagsOf_low] at h
  obtain ⟨hflags, hrest⟩ := cons_eq_cons.mp h
  have hlow : (p.destinationType <<< 2 ||| p.packetType) &&& 0x0f =
      (q.destinationType <<< 2 ||| q.packetType) &&& 0x0f := by
    have hnat := congrArg UInt8.toNat hflags
    rwa [UInt8.toNat_ofNat_of_lt' (hsmall _), UInt8.toNat_ofNat_of_lt' (hsmall _)] at hnat
  obtain ⟨htype, hdestination⟩ := htypes ⟨_, hp.destinationType⟩ ⟨_, hp.packetType⟩
    ⟨_, hq.destinationType⟩ ⟨_, hq.packetType⟩ hlow
  -- the destinations have the same length, so they end at the same place
  obtain ⟨hhash, htail⟩ :=
    append_inj hrest (hp.destinationHash.trans hq.destinationHash.symm)
  obtain ⟨hcontext, hdata⟩ := cons_eq_cons.mp htail
  have hnat := congrArg UInt8.toNat hcontext
  rw [UInt8.toNat_ofNat_of_lt' hp.context, UInt8.toNat_ofNat_of_lt' hq.context] at hnat
  exact ⟨htype, hdestination, hhash, hnat, hdata⟩

end RnsPacket

end Reticulum
end Conest

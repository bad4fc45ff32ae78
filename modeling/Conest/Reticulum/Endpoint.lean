import Conest.Lib.LinkedMap
import Conest.Lib.RecentSet
import Conest.Reticulum.Packet

/-!
# Reticulum endpoints

An endpoint learns paths from announces. An announce is a packet whose data is a public key, the
hash of a name, ten random bytes with the time in the last five, a signature and more data. It is
valid if the destination of the packet is that of the key and the name, and the signature is one of
the key.

What is sent to a destination is encrypted to its identity and goes through the next node of the
path, if there is one that is not a neighbour. It fits a packet whatever the path is
(`sendTo_fits`), which `packets_carry` puts together with what holds of packets.
-/

namespace Conest
namespace Reticulum

open Lib List

variable (c : Primitives)

/-! ### Announces -/

structure RnsAnnounce where
  destinationHash : Bytes
  identity : RnsIdentity c
  nameHash : Bytes
  appData : Bytes
  hops : ℕ
  emittedAt : ℕ
  transportId : Option Bytes

/-- The number that bytes spell, the highest first. -/
def emittedAtOf (bytes : Bytes) : ℕ := bytes.foldl (fun value byte => value <<< 8 ||| byte.toNat) 0

/-- The part of an announce before the ratchet. -/
def announceFixed : ℕ := 64 + rnsNameHashBytes + 10

/-- `none` where the announce is not valid. -/
def RnsAnnounce.validate (packet : RnsPacket) : Option (RnsAnnounce c) :=
  if packet.packetType ≠ RnsPacketType.announce then none
  else
    let data := packet.data
    let ratchetBytes := if packet.contextFlag then 32 else 0
    if data.length < announceFixed + ratchetBytes + 64 then none
    else
      let publicKey := data.take 64
      let nameHash := (data.drop 64).take rnsNameHashBytes
      let randomHash := (data.drop (64 + rnsNameHashBytes)).take 10
      let ratchet := (data.drop announceFixed).take ratchetBytes
      let signature := (data.drop (announceFixed + ratchetBytes)).take 64
      let appData := data.drop (announceFixed + ratchetBytes + 64)
      match (RnsIdentity.fromPublicKey publicKey : Option (RnsIdentity c)) with
      | none => none
      | some identity =>
        if rnsDestinationHash c nameHash identity.hash ≠ packet.destinationHash then none
        else if !identity.verify (packet.destinationHash ++ publicKey ++ nameHash ++ randomHash ++
            ratchet ++ appData) signature then none
        else
          some
            { destinationHash := packet.destinationHash
              identity
              nameHash
              appData
              hops := packet.hops
              emittedAt := emittedAtOf (randomHash.drop 5)
              transportId := packet.transportId }

/-! ### Paths -/

/-- How to reach a destination. -/
structure RnsPath where
  identity : RnsIdentity c
  hops : ℕ
  nextHop : Option Bytes
  emittedAt : ℕ

def maxPaths : ℕ := 1024

def maxWatched : ℕ := 1024

/-- What an endpoint knows of others: the paths to destinations and the destinations it watches. -/
structure Routes where
  paths : LinkedMap Bytes (RnsPath c)
  watched : RecentSet Bytes maxWatched

namespace Routes

variable {c} (r : Routes c)

def pathTo (destination : Bytes) : Option (RnsPath c) := r.paths.get destination

def watch (destination : Bytes) : Routes c :=
  { r with watched := (r.watched.remove destination).add destination }

/-- An older announce must not move a fresher path. -/
def outdated (announce : RnsAnnounce c) : Bool :=
  (r.pathTo announce.destinationHash).any fun known => decide (announce.emittedAt < known.emittedAt)

/-- The path that makes room for another: the oldest that is not watched, or the oldest. -/
def victim (paths : LinkedMap Bytes (RnsPath c)) : Option Bytes :=
  (paths.keys.find? fun candidate => !r.watched.contains candidate).or paths.keys.head?

/-- Remembers the path of an announce, with a hop for its arrival. -/
def learn (announce : RnsAnnounce c) : Routes c :=
  let paths := r.paths.remove announce.destinationHash
  let paths :=
    if maxPaths ≤ paths.size then
      match r.victim paths with
      | some victim => paths.remove victim
      | none => paths
    else paths
  let path := ⟨announce.identity, announce.hops + 1, announce.transportId, announce.emittedAt⟩
  { r with paths := paths.put announce.destinationHash path }

/-- The packet that carries the data, if it is small enough. `ephemeral` and `iv` are drawn. -/
def sendTo (nameHash : Bytes) (recipient : RnsIdentity c) (data : Bytes)
    (recipientNameHash : Option Bytes) (ephemeral iv : Bytes) :
    Except String (Routes c × RnsPacket) :=
  if rnsEncryptedMdu < data.length then .error "Reticulum packet data is too large."
  else
    let destination := rnsDestinationHash c (recipientNameHash.getD nameHash) recipient.hash
    let r := r.watch destination
    let transportId := (r.pathTo destination).bind fun path =>
      if 1 < path.hops then path.nextHop else none
    .ok (r,
      { packetType := RnsPacketType.data
        destinationType := RnsDestinationType.single
        destinationHash := destination
        data := recipient.encrypt ephemeral iv data
        transportId })

/-- The next hops are the hashes of nodes. -/
def Sound : Prop :=
  ∀ destination path, r.pathTo destination = some path →
    ∀ id ∈ path.nextHop, id.length = rnsTruncatedHashBytes

variable {r}

theorem sound_empty : (⟨LinkedMap.empty, RecentSet.empty⟩ : Routes c).Sound :=
  fun _ _ hpath => nomatch hpath

/-! ### What is learned -/

/-- **The paths after an announce**: the new one, and of the others those that were there. -/
theorem pathTo_learn (announce : RnsAnnounce c) (destination : Bytes) :
    (r.learn announce).pathTo destination = some ⟨announce.identity, announce.hops + 1,
        announce.transportId, announce.emittedAt⟩ ∧ destination = announce.destinationHash ∨
    destination ≠ announce.destinationHash ∧ ∀ path ∈ (r.learn announce).pathTo destination,
      r.pathTo destination = some path := by
  unfold learn pathTo
  rw [LinkedMap.get_put]
  by_cases heq : destination = announce.destinationHash
  · exact .inl ⟨if_pos heq, heq⟩
  right
  rw [if_neg heq]
  refine ⟨heq, fun path hpath => ?_⟩
  have hremoved : ∀ key, (r.paths.remove key).get destination = some path →
      r.paths.get destination = some path := by
    intro key hget
    rw [LinkedMap.get_remove] at hget
    split at hget
    · cases hget
    · exact hget
  split at hpath
  · split at hpath
    · -- a path made room
      rw [LinkedMap.get_remove] at hpath
      split at hpath
      · cases hpath
      · exact hremoved _ hpath
    · exact hremoved _ hpath
  · exact hremoved _ hpath

theorem validate_eq_some {packet : RnsPacket} {announce : RnsAnnounce c}
    (h : RnsAnnounce.validate c packet = some announce) :
    announce.destinationHash = packet.destinationHash ∧
      announce.transportId = packet.transportId := by
  unfold RnsAnnounce.validate at h
  split at h
  · cases h
  simp only at h
  generalize (if packet.contextFlag = true then 32 else 0) = ratchetBytes at h
  split at h
  · cases h
  split at h
  · cases h
  split at h
  · cases h
  split at h
  · cases h
  cases h
  exact ⟨rfl, rfl⟩

/-! ### What is sent -/

/-- **What is sent fits a packet**, with a transport id or without, and the one it is for decrypts
it. -/
theorem sendTo_fits (hlaw : c.Lawful) (hsound : r.Sound) {nameHash data ephemeral iv : Bytes}
    {recipient : RnsIdentity c} {recipientNameHash : Option Bytes}
    (hdata : data.length ≤ rnsEncryptedMdu) (hiv : iv.length = 16) :
    ∃ packet, r.sendTo nameHash recipient data recipientNameHash ephemeral iv =
        .ok (r.watch packet.destinationHash, packet) ∧ packet.WellFormed ∧
      (∀ transportId : Option Bytes, (∀ id ∈ transportId, id.length = rnsTruncatedHashBytes) →
        { packet with transportId }.raw.length ≤ rnsMtu) ∧
      ∀ (identity : RnsIdentity c) (seed : Bytes), identity.encryption = some seed →
        identity.publicKey = recipient.publicKey →
          identity.decrypt packet.data = some (some data) := by
  have hlength : (recipient.encrypt ephemeral iv data).length = 80 + paddedLength data.length :=
    RnsIdentity.length_encrypt hlaw hiv
  have hpadded : paddedLength data.length ≤ 384 := by
    have hle : data.length ≤ 383 := hdata
    unfold paddedLength
    omega
  unfold sendTo
  rw [if_neg (Nat.not_lt.mpr hdata)]
  refine ⟨⟨RnsPacketType.data, RnsDestinationType.single,
    rnsDestinationHash c (recipientNameHash.getD nameHash) recipient.hash,
    recipient.encrypt ephemeral iv data, RnsContext.none, false, 0, _⟩, rfl, ?_,
    fun transportId hid => ?_, fun identity seed hseed hkey => ?_⟩
  · have hfour : (0 : ℕ) < 4 := by decide
    have hcontext : RnsContext.none < 256 := by decide
    have hhops : (0 : ℕ) < 128 := by decide
    refine ⟨hfour, hfour, length_rnsTruncatedHash c _, hcontext, hhops, fun id hid => ?_⟩
    obtain ⟨path, hpath, hnext⟩ := Option.bind_eq_some_iff.mp hid
    split at hnext
    · exact hsound _ path hpath id hnext
    · cases hnext
  · -- the longer header, the keys and the tag, and the padded data
    have hheader : (transportId.getD []).length ≤ rnsTruncatedHashBytes := by
      cases transportId with
      | none => exact Nat.zero_le _
      | some id => exact (hid id rfl).le
    unfold RnsPacket.raw
    simp only [length_cons, length_append, hlength]
    unfold rnsDestinationHash
    rw [length_rnsTruncatedHash]
    have h16 : rnsTruncatedHashBytes = 16 := rfl
    have h500 : rnsMtu = 500 := rfl
    omega
  · exact RnsIdentity.decrypt_encrypt hlaw hseed hkey.symm hiv

end Routes

/-- **Packets.** They are read back from their bytes, and written back where the flags are those of
a packet; the hash does not change on the way and its input tells packets apart; and what is sent
to an identity fits and is decrypted by it. -/
theorem packets_carry (c : Primitives) (hlaw : c.Lawful) :
    (∀ p : RnsPacket, p.WellFormed → p.data ≠ [] → p.raw.length ≤ rnsMtu →
      ∃ raw, p.pack = .ok raw ∧ RnsPacket.unpack raw = some p) ∧
    (∀ (raw : Bytes) (p : RnsPacket), RnsPacket.unpack raw = some p →
      ((raw.getD 0 0).toNat >>> 7) &&& 1 = 0 →
      ((raw.getD 0 0).toNat >>> 6) &&& 1 = ((raw.getD 0 0).toNat >>> 4) &&& 1 →
      p.pack = .ok raw) ∧
    (∀ (p : RnsPacket) (hops : ℕ) (transportId : Option Bytes),
      { p with hops, transportId }.hash c = p.hash c) ∧
    (∀ p q : RnsPacket, p.WellFormed → q.WellFormed → p.hashInput = q.hashInput →
      p.packetType = q.packetType ∧ p.destinationType = q.destinationType ∧
        p.destinationHash = q.destinationHash ∧ p.context = q.context ∧ p.data = q.data) ∧
    ∀ (r : Routes c) (nameHash data ephemeral iv : Bytes) (recipient : RnsIdentity c)
      (recipientNameHash : Option Bytes), r.Sound → data.length ≤ rnsEncryptedMdu →
      iv.length = 16 →
      ∃ packet, r.sendTo nameHash recipient data recipientNameHash ephemeral iv =
          .ok (r.watch packet.destinationHash, packet) ∧ packet.WellFormed ∧
        (∀ transportId : Option Bytes, (∀ id ∈ transportId, id.length = rnsTruncatedHashBytes) →
          { packet with transportId }.raw.length ≤ rnsMtu) ∧
        ∀ (identity : RnsIdentity c) (seed : Bytes), identity.encryption = some seed →
          identity.publicKey = recipient.publicKey →
            identity.decrypt packet.data = some (some data) := by
  refine ⟨fun p h hdata hmtu =>
      ⟨p.raw, RnsPacket.pack_of_le hmtu, RnsPacket.unpack_raw h hdata hmtu⟩,
    fun raw p h hclear hagree => ?_, RnsPacket.hash_ignores c,
    fun p q hp hq h => RnsPacket.eq_of_hashInput hp hq h,
    fun r nameHash data ephemeral iv recipient recipientNameHash hsound hdata hiv =>
      Routes.sendTo_fits hlaw hsound hdata hiv⟩
  have hraw := RnsPacket.raw_of_unpack h hclear hagree
  rw [RnsPacket.pack_of_le, hraw]
  rw [hraw]
  exact RnsPacket.le_mtu_of_unpack h

namespace Sample

def fixed (bytes : Bytes) : Bytes32 :=
  ⟨(bytes ++ List.replicate 32 0).take 32, by
    rw [List.length_take, List.length_append, List.length_replicate]
    omega⟩

def padding (length : ℕ) : Bytes :=
  List.replicate (16 - length % 16) (UInt8.ofNat (16 - length % 16))

def unpadded (bytes : Bytes) : Option Bytes :=
  some (bytes.take (bytes.length - (bytes.getLastD 0).toNat))

def primitives : Primitives where
  sha256 _ := fixed []
  hmacSha256 _ _ := fixed []
  x25519Public seed := fixed seed
  x25519Shared ours theirs := List.zipWith (· + ·) (fixed ours).1 theirs
  aesEncrypt _ _ plaintext := plaintext ++ padding plaintext.length
  aesDecrypt _ _ ciphertext := unpadded ciphertext
  ed25519Verify _ _ _ := true

theorem unpadded_padding (bytes : Bytes) :
    unpadded (bytes ++ padding bytes.length) = some bytes := by
  unfold unpadded padding
  obtain ⟨n, hn⟩ : ∃ n, 16 - bytes.length % 16 = n + 1 := ⟨15 - bytes.length % 16, by omega⟩
  have hsmall : n + 1 < 256 := by omega
  have hlast : (bytes ++ replicate (n + 1) (UInt8.ofNat (n + 1))).getLastD 0 =
      UInt8.ofNat (n + 1) := by
    rw [getLastD_eq_getLast?, getLast?_append, getLast?_replicate]
    rfl
  rw [hn, hlast, UInt8.toNat_ofNat_of_lt' hsmall, length_append, length_replicate,
    Nat.add_sub_cancel, take_left]

theorem lawful : primitives.Lawful where
  shared ours theirs := zipWith_comm_of_comm UInt8.add_comm
  length_aesEncrypt key nonce plaintext := by
    show (plaintext ++ padding plaintext.length).length = _
    unfold padding paddedLength
    rw [length_append, length_replicate]
    omega
  aesDecrypt_aesEncrypt key nonce plaintext := unpadded_padding plaintext

def packet : RnsPacket where
  packetType := RnsPacketType.data
  destinationType := RnsDestinationType.single
  destinationHash := List.replicate 16 3
  data := [1, 2, 3]
  hops := 2
  transportId := some (List.replicate 16 9)

def seed : Bytes := List.replicate 32 5

def identity : RnsIdentity primitives where
  publicKey := (fixed seed).1 ++ List.replicate 32 0
  encryption := some seed
  length_publicKey := rfl
  publicKey_take := by
    rintro _ ⟨⟩
    rfl

def routes : Routes primitives := ⟨LinkedMap.empty, RecentSet.empty⟩

theorem packets_carry_sample :
    (∃ raw, packet.pack = .ok raw ∧ RnsPacket.unpack raw = some packet) ∧
    ∃ sent, routes.sendTo [] identity [5, 6] none seed (List.replicate 16 0) =
        .ok (routes.watch sent.destinationHash, sent) ∧
      identity.decrypt sent.data = some (some [5, 6]) := by
  obtain ⟨hunpack, -, -, -, hsend⟩ := packets_carry primitives lawful
  constructor
  · have hid : ∀ id ∈ packet.transportId, id.length = rnsTruncatedHashBytes := by
      rintro _ ⟨⟩
      rfl
    exact hunpack packet ⟨by decide, by decide, rfl, by decide, by decide, hid⟩ (by decide)
      (by decide)
  · obtain ⟨sent, hsent, -, -, hdecrypt⟩ := hsend routes [] [5, 6] seed (replicate 16 0)
      identity none Routes.sound_empty (by decide) rfl
    exact ⟨sent, hsent, hdecrypt identity seed rfl rfl⟩

end Sample

end Reticulum
end Conest

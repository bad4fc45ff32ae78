import Conest.Mail.KeyReading

/-!
# The kept key

A key that is stored is written with one user id and one subkey, each with its signature. What is
found in a key vouches for what is written of it (`vouched_of_found`), so `parse` reads the kept key
by its one certificate and its one binding (`Vouched.parse`).

The original is read by the newest certificate over all its user ids. The two agree, at the time of
the first reading and later, exactly when the first certified user id speaks for the key
(`behaves_iff`). In `Sample` it does not: its certificate is older than that of the second user id,
which prefers another cipher and lets the key expire.
-/

namespace Conest
namespace Mail
namespace OpenPgp

open Lib List Option

/-! ### Reading the kept key -/

/-- The packets that are kept: the key, one user id and one subkey, each with its signature. -/
def keptPackets (primary : Primary) (first : Bytes × Signature) (subkey : Subkey)
    (bound : Signature) : List (ℕ × Bytes) :=
  [(6, primary.body), (13, first.1), (2, first.2.raw), (14, subkey.body), (2, bound.raw)]

namespace Reading

/-- **What vouches for the kept packets**: the subkey is bound by `bound`. -/
structure Vouched (r : Reading) (first : Bytes × Signature) (subkey : Subkey) (bound : Signature) :
    Prop where
  primary : ∀ packets, Primary.read ((6, r.primary.body) :: packets) = .ok r.primary
  short : first.1.length ≤ maxUserIdBytes
  certificate : Signature.tryRead first.2.raw = some first.2
  certificateType : first.2.type ∈ certificationTypes
  certificateFrom : first.2.mayBeFrom r.fingerprint = true
  certificateGood : r.verify (r.userIdParts first.1) first.2 = true
  read : ∀ signatures, r.subkey? { tag := 14, body := subkey.body, signatures } =
    some { subkey with own := r.own bindingTypes signatures }
  binding : Signature.tryRead bound.raw = some bound
  bindingType : bound.type ∈ bindingTypes
  bindingFrom : bound.mayBeFrom r.fingerprint = true
  bindingGood : r.verify (r.subkeyParts subkey) bound = true
  writable : ∀ p ∈ keptPackets r.primary first subkey bound, Writable p

variable {r : Reading} {first : Bytes × Signature} {subkey : Subkey} {bound : Signature}

section

variable (h : r.Vouched first subkey bound)

include h

theorem Vouched.components : components (keptPackets r.primary first subkey bound).tail =
      [{ tag := 13, body := first.1, signatures := [first.2] },
        { tag := 14, body := subkey.body, signatures := [bound] }] := by
  simp [OpenPgp.components, keptPackets, gather, h.certificate, h.binding]

theorem Vouched.certified :
    r.certified (OpenPgp.components (keptPackets r.primary first subkey bound).tail) = [first] := by
  have hid : isUserId { tag := 13, body := first.1, signatures := [first.2] } = true :=
    decide_eq_true ⟨rfl, h.short⟩
  have hsubkey : isUserId { tag := 14, body := subkey.body, signatures := [bound] } = false := rfl
  have hbest : r.certificate { tag := 13, body := first.1, signatures := [first.2] } =
      some first.2 := by
    rw [Reading.certificate, own_singleton h.certificateType h.certificateFrom,
      find?_cons_of_pos h.certificateGood]
  rw [h.components, Reading.certified]
  simp [hid, hsubkey, hbest, maxComponents]

theorem Vouched.subkeysOf :
    r.subkeysOf (OpenPgp.components (keptPackets r.primary first subkey bound).tail) =
      [{ subkey with own := [bound] }] := by
  rw [h.components, Reading.subkeysOf]
  simp [h.read, own_singleton h.bindingType h.bindingFrom]

theorem Vouched.loop :
    ∃ s, r.loop (keptPackets r.primary first subkey bound).tail = .ok s ∧ s.checks = 11 := by
  have hcheck : r.firstGood (r.userIdParts first.1) 12 [first.2] = .ok (some first.2, 11) := by
    rw [firstGood, if_pos h.certificateGood]
  have hroom : ¬ maxComponents < 0 + 1 := by decide
  have huserId : r.readComponent (.start r.primary 12)
      { tag := 13, body := first.1, signatures := [first.2] } =
      .ok ({ Progress.start r.primary 11 with userIdCount := 1 }.certify first.1 first.2) := by
    unfold readComponent
    rw [if_neg (not_lt.mpr h.short)]
    simp only [own_singleton h.certificateType h.certificateFrom]
    rw [show (Progress.start r.primary 12).checks = 12 from rfl, hcheck]
    rfl
  have hother : (14 : ℕ) ≠ 13 := by decide
  have hsubkey : ∀ s : Progress, r.readComponent s
      { tag := 14, body := subkey.body, signatures := [bound] } =
      .ok { s with subkeys := s.subkeys ++ [{ subkey with own := [bound] }] } := by
    intro s
    rw [readComponent, h.read,
      own_singleton h.bindingType h.bindingFrom]
    rfl
  have hfront : (gather (keptPackets r.primary first subkey bound).tail).1 = [] := rfl
  refine ⟨{ ({ Progress.start r.primary 11 with userIdCount := 1 }.certify first.1 first.2) with
    subkeys := [{ subkey with own := [bound] }] }, ?_, rfl⟩
  rw [Reading.loop, hfront, checkRevocations, h.components]
  simp only [maxChecksPerKey, foldlM_cons, foldlM_nil, huserId]
  calc (Except.ok _ >>= fun s => r.readComponent s _ >>= pure)
      = (r.readComponent
          ({ Progress.start r.primary 11 with userIdCount := 1 }.certify first.1 first.2)
          { tag := 14, body := subkey.body, signatures := [bound] } >>= pure) := rfl
    _ = _ := by
      rw [hsubkey]
      rfl

theorem Vouched.chooseSubkey : r.chooseSubkey 11 [{ subkey with own := [bound] }] =
      .ok (if r.usable subkey bound then some ({ subkey with own := [bound] }, bound)
        else none) := by
  have hgood : r.firstGood (r.subkeyParts { subkey with own := [bound] }) 11 [bound] =
      .ok (some bound, 10) := by
    exact if_pos h.bindingGood
  rw [Reading.chooseSubkey, hgood]
  show (if r.usable subkey bound = true then _ else r.chooseSubkey 10 []) = _
  split <;> rfl

/-- **What the kept key is read as**: the one certificate and the one binding say whether it lasts
and what it prefers. -/
theorem Vouched.parse : PgpPublicKey.parse r.primitives r.sorting
        (writePackets (keptPackets r.primary first subkey bound)) r.now =
      if maxKeyBytes < (writePackets (keptPackets r.primary first subkey bound)).length then
        .error .tooLarge
      else if isOver r.primary.created first.2.keyExpires r.now then .error .expired
      else if r.usable subkey bound then
        .ok (r.give (writePackets (keptPackets r.primary first subkey bound))
          [DartString.utf8DecodeMalformed first.1] first.2.preferences subkey)
      else .error .noEncryptionKey := by
  obtain ⟨s, hloop, hchecks⟩ := h.loop
  have hcount : (keptPackets r.primary first subkey bound).length ≤ maxPackets :=
    show 5 ≤ maxPackets by decide
  have hwritten : writePackets (keptPackets r.primary first subkey bound) =
      packet 6 r.primary.body ++ writtenUserId [first] ++ packet 14 subkey.body ++
        packet 2 bound.raw := by
    simp [writePackets, keptPackets, writtenUserId]
  by_cases hsize : maxKeyBytes < (writePackets (keptPackets r.primary first subkey bound)).length
  · rw [if_pos hsize, PgpPublicKey.parse, if_pos hsize]
  have hfinish : r.finish s = r.conclude [first]
      (if r.usable subkey bound then some ({ subkey with own := [bound] }, bound) else none) := by
    rw [(seen_of_loop hloop).finish, h.certified, h.subkeysOf, hchecks,
      Sorted.Descending.sort_singleton]
    simp[maxSubkeysChecked, take_succ_cons, take_nil, h.chooseSubkey]
  rw [if_neg hsize,
    parse_of_read hsize (readPackets_writePackets h.writable hcount) (h.primary _), hloop]
  show r.finish s = _
  rw [hfinish, hwritten]
  by_cases husable : r.usable subkey bound = true
  · rw [if_pos husable, if_pos husable]
    rfl
  · rw [if_neg husable, if_neg husable]
    rfl

end

/-! ### What is found can be kept -/

section

variable {components : List Component}

theorem of_certified (h : first ∈ r.certified components) :
    ∃ component ∈ components, first.1.length ≤ maxUserIdBytes ∧
      first.2 ∈ r.own certificationTypes component.signatures ∧
      r.verify (r.userIdParts first.1) first.2 = true ∧ component.body = first.1 ∧
      component.tag = 13 := by
  obtain ⟨component, hmem, hfirst⟩ := mem_filterMap.mp h
  obtain ⟨best, hbest, rfl⟩ := map_eq_some_iff.mp hfirst
  obtain ⟨hin, hid⟩ := mem_filter.mp (mem_of_mem_take hmem)
  obtain ⟨htag, hshort⟩ := of_decide_eq_true hid
  exact ⟨component, hin, hshort, mem_of_find?_eq_some hbest, find?_some hbest, rfl, htag⟩

theorem of_subkeysOf (h : subkey ∈ r.subkeysOf components) :
    ∃ component ∈ components, r.subkey? component = some subkey ∧ component.tag = 14 := by
  obtain ⟨component, hmem, hread⟩ := mem_filterMap.mp h
  obtain ⟨hin, htag⟩ := mem_filter.mp hmem
  exact ⟨component, hin, hread, of_decide_eq_true htag⟩

end

theorem of_subkey? {component : Component} (h : r.subkey? component = some subkey) :
    subkey.body = component.body ∧ subkey.own = r.own bindingTypes component.signatures ∧
      ∀ signatures, r.subkey? { tag := 14, body := subkey.body, signatures } =
        some { subkey with own := r.own bindingTypes signatures } := by
  unfold subkey? at h
  split at h
  · cases h
  case h_2 material hmaterial =>
    split at h
    · cases h
    case isFalse halgorithm =>
      obtain ⟨cv25519, hcv25519, rfl⟩ := map_eq_some_iff.mp h
      refine ⟨rfl, rfl, fun signatures => ?_⟩
      unfold subkey?
      simp[hmaterial, if_neg halgorithm, hcv25519, map_some]

section

variable {packets : List (ℕ × Bytes)}

theorem tryRead_of_component {component : Component} (hmem : component ∈ components packets)
    {signature : Signature} (hsignature : signature ∈ component.signatures) :
    Signature.tryRead signature.raw = some signature ∧ (2, signature.raw) ∈ packets := by
  obtain ⟨gathered, hgathered, rfl⟩ := mem_map.mp hmem
  obtain ⟨body, hbody, hread⟩ := mem_filterMap.mp hsignature
  refine ⟨Signature.tryRead_raw hread, ?_⟩
  rw [Signature.raw_of_tryRead hread]
  exact mem_of_gather.2 gathered hgathered body hbody

theorem mem_of_components {component : Component} (h : component ∈ components packets) :
    (component.tag, component.body) ∈ packets := by
  obtain ⟨gathered, hgathered, rfl⟩ := mem_map.mp h
  exact packet_of_gather gathered hgathered

theorem of_primary {primary : Primary}
    (h : Primary.read packets = .ok primary) :
    (6, primary.body) ∈ packets ∧
      ∀ rest, Primary.read ((6, primary.body) :: rest) = .ok primary := by
  unfold Primary.read at h
  split at h
  case h_1 body rest =>
    split at h
    · cases h
    case h_2 material hmaterial =>
      split at h
      · cases h
      case isFalse halgorithm =>
        cases hkey : material.eddsaKey with
        | error refusal =>
          rw [hkey] at h
          cases h
        | ok signingKey =>
        rw [hkey] at h
        cases h
        refine ⟨mem_cons_self, fun rest => ?_⟩
        simp only [Primary.read, hmaterial, if_neg halgorithm, hkey]
        rfl
  · cases h

theorem vouched_of_found (hprimary : Primary.read packets = .ok r.primary)
    (hsize : ∀ p ∈ packets, p.2.length < 2 ^ 32)
    (hfirst : first ∈ r.certified (components packets.tail))
    (hchosen : r.chosen (r.subkeysOf (components packets.tail)) = some (subkey, bound)) :
    r.Vouched first subkey bound := by
  obtain ⟨userId, huserId, hshort, hown, hgood, hbody, htag⟩ := of_certified hfirst
  obtain ⟨hin, hcertType, hcertFrom⟩ := mem_own hown
  obtain ⟨hcertRead, hcertPacket⟩ := tryRead_of_component huserId hin
  obtain ⟨hsubkey, hboundOwn, hboundGood, husable⟩ := of_chosen hchosen
  obtain ⟨component, hcomponent, hread, hsubkeyTag⟩ := of_subkeysOf hsubkey
  obtain ⟨hsubkeyBody, hsubkeyOwn, hagain⟩ := of_subkey? hread
  rw [hsubkeyOwn] at hboundOwn
  obtain ⟨hboundIn, hboundType, hboundFrom⟩ := mem_own hboundOwn
  obtain ⟨hboundRead, hboundPacket⟩ := tryRead_of_component hcomponent hboundIn
  obtain ⟨hkey, hkeyAgain⟩ := of_primary hprimary
  have hsmall : ∀ tag body, (tag, body) ∈ packets.tail → body.length < 2 ^ 32 :=
    fun tag body hp => hsize _ (mem_of_mem_tail hp)
  refine ⟨hkeyAgain, hshort, hcertRead, hcertType, hcertFrom, hgood, hagain, hboundRead,
    hboundType, hboundFrom, hboundGood, ?_⟩
  -- each body is one that was read
  have huserIdSmall := hsmall _ _ (mem_of_components huserId)
  have hsubkeySmall := hsmall _ _ (mem_of_components hcomponent)
  rw [hbody] at huserIdSmall
  rw [← hsubkeyBody] at hsubkeySmall
  intro p hp
  simp only [keptPackets, mem_cons, not_mem_nil, or_false] at hp
  rcases hp with rfl | rfl | rfl | rfl | rfl
  · exact ⟨show 6 < 64 by decide, hsize _ hkey⟩
  · exact ⟨show 13 < 64 by decide, huserIdSmall⟩
  · exact ⟨show 2 < 64 by decide, hsmall _ _ hcertPacket⟩
  · exact ⟨show 14 < 64 by decide, hsubkeySmall⟩
  · exact ⟨show 2 < 64 by decide, hsmall _ _ hboundPacket⟩

end

end Reading

/-! ### When the kept key behaves like the original -/

section

variable (c : Primitives) (sorting : Sorted.Descending)

/-- **The kept key behaves like the original**: read at the same time it gives the same, and when
the original is refused as expired it is refused. -/
structure Behaves (data : Bytes) (key : PgpPublicKey) (now later : ℤ) : Prop where
  again : ∃ key', PgpPublicKey.parse c sorting key.bytes now = .ok key' ∧
    key'.fingerprint = key.fingerprint ∧ key'.signingKey = key.signingKey ∧
      key'.encryptionSubkey = key.encryptionSubkey ∧
        key'.symmetricPreferences = key.symmetricPreferences
  expires : PgpPublicKey.parse c sorting data later = .error .expired →
    ∃ refusal, PgpPublicKey.parse c sorting key.bytes later = .error refusal

/-- Each signature of a key is as good at one time as at the other. -/
def SameVerdicts (data : Bytes) (now later : ℤ) : Prop :=
  ∀ packets primary, readPackets data = some packets → Primary.read packets = .ok primary →
    (Reading.mk c sorting primary now).SameVerdicts packets.tail later

end

theorem Signature.verify_congr {c : Primitives} {publicKey fingerprint : Bytes} {parts : List Bytes}
    {now later : ℤ} {signature : Signature} (h : signature.isOf later = signature.isOf now) :
    signature.verify c publicKey parts fingerprint later =
      signature.verify c publicKey parts fingerprint now := by
  unfold Signature.verify
  rw [h]

/-- Each signature that can be read is of both times, or of neither. -/
def sameTimes (data : Bytes) (now later : ℤ) : Bool :=
  (readPackets data).all fun packets => packets.all fun packet =>
    (Signature.tryRead packet.2).all fun signature => signature.isOf later == signature.isOf now

theorem sameVerdicts_of_isOf {c : Primitives} {sorting : Sorted.Descending} {data : Bytes}
    {now later : ℤ} (h : sameTimes data now later = true) :
    SameVerdicts c sorting data now later := by
  intro packets primary hpackets _ packet hpacket signature hread parts
  rw [sameTimes, hpackets, Option.all_some, List.all_eq_true] at h
  have htime := h packet (List.mem_of_mem_tail hpacket)
  rw [hread, Option.all_some, beq_iff_eq] at htime
  exact Signature.verify_congr htime

/-- **The first certified user id speaks for the key.** What is kept with it is not too large, its
certificate prefers what the newest one does and does not let the key expire before, and when the
key expires by the newest certificate, then so it does by the first, or its subkey has expired. -/
structure Reading.FirstSpeaks (r : Reading) (components : List Component) (later : ℤ) : Prop where
  fits : ∀ first ∈ (r.certified components).head?, ∀ chosen ∈ r.chosen (r.subkeysOf components),
    (writePackets (keptPackets r.primary first chosen.1 chosen.2)).length ≤ maxKeyBytes
  prefers : ∀ first ∈ (r.certified components).head?, ∀ best ∈ newest (r.certified components),
    first.2.preferences = best.preferences
  lasts : ∀ first ∈ (r.certified components).head?,
    ¬ isOver r.primary.created first.2.keyExpires r.now
  expires : ∀ first ∈ (r.certified components).head?, ∀ best ∈ newest (r.certified components),
    ∀ chosen ∈ r.chosen (r.subkeysOf components),
      isOver r.primary.created best.keyExpires later →
        isOver r.primary.created first.2.keyExpires later ∨
          isOver chosen.1.created chosen.2.keyExpires later

/-- The same of the bytes of a key. -/
def FirstSpeaks (c : Primitives) (sorting : Sorted.Descending) (data : Bytes) (now later : ℤ) :
    Prop :=
  ∀ packets primary, readPackets data = some packets → Primary.read packets = .ok primary →
    (Reading.mk c sorting primary now).FirstSpeaks (components packets.tail) later

namespace Reading

variable {r : Reading} {key : PgpPublicKey} {certificates : List (Bytes × Signature)}
  {found : Option (Subkey × Signature)}

theorem conclude_ok (h : r.conclude certificates found = .ok key) :
    ∃ first best subkey bound, certificates.head? = some first ∧ newest certificates = some best ∧
      found = some (subkey, bound) ∧ key = r.give
        (writePackets (keptPackets r.primary first subkey bound))
        (certificates.map fun c => DartString.utf8DecodeMalformed c.1) best.preferences subkey := by
  unfold conclude at h
  split at h
  · cases h
  case h_2 best hbest =>
    split at h
    · cases h
    split at h
    · cases h
    case h_2 subkey bound =>
      cases certificates with
      | nil => cases hbest
      | cons first rest =>
        refine ⟨first, best, subkey, bound, rfl, hbest, rfl, (Except.ok.inj h).symm.trans ?_⟩
        simp [writePackets, keptPackets, writtenUserId]

theorem conclude_expired_iff {best : Signature} (hbest : newest certificates = some best) :
    r.conclude certificates found = .error .expired ↔
      isOver r.primary.created best.keyExpires r.now := by
  unfold conclude
  simp only [hbest]
  split
  case isTrue hover => exact iff_of_true rfl hover
  case isFalse hnot =>
    refine iff_of_false (fun h => ?_) hnot
    cases found <;> cases h

theorem Vouched.later {first : Bytes × Signature} {subkey : Subkey} {bound : Signature}
    (h : r.Vouched first subkey bound) {now : ℤ}
    (hcertificate : ∀ parts, (r.later now).verify parts first.2 = r.verify parts first.2)
    (hbinding : ∀ parts, (r.later now).verify parts bound = r.verify parts bound) :
    (r.later now).Vouched first subkey bound where
  primary := h.primary
  short := h.short
  certificate := h.certificate
  certificateType := h.certificateType
  certificateFrom := h.certificateFrom
  certificateGood := (hcertificate _).trans h.certificateGood
  read := h.read
  binding := h.binding
  bindingType := h.bindingType
  bindingFrom := h.bindingFrom
  bindingGood := (hbinding _).trans h.bindingGood
  writable := h.writable

/-- **When the original is refused as expired**, unless the budget is used up: when it is over by
the newest certificate. -/
theorem expired_iff {data : Bytes} {packets : List (ℕ × Bytes)} {s : Progress} {best : Signature}
    (hsize : ¬ maxKeyBytes < data.length) (hpackets : readPackets data = some packets)
    (hprimary : Primary.read packets = .ok r.primary) (hloop : r.loop packets.tail = .ok s)
    (hbest : newest (r.certified (OpenPgp.components packets.tail)) = some best)
    (hbudget : PgpPublicKey.parse r.primitives r.sorting data r.now ≠ .error .tooManySignatures) :
    PgpPublicKey.parse r.primitives r.sorting data r.now = .error .expired ↔
      isOver r.primary.created best.keyExpires r.now := by
  rw [parse_of_read hsize hpackets hprimary, hloop] at hbudget ⊢
  simp only at hbudget ⊢
  rw [(seen_of_loop hloop).finish] at hbudget ⊢
  cases hchoose : r.chooseSubkey s.checks ((r.sorting.sort Subkey.created
      (r.subkeysOf (OpenPgp.components packets.tail))).take maxSubkeysChecked) with
  | error refusal =>
    rw [hchoose, chooseSubkey_error hchoose] at hbudget
    exact absurd rfl hbudget
  | ok found => exact conclude_expired_iff hbest

end Reading

/-- **What `parse` found** in a key it accepts: the packets and what the loop made of them, the
first certificate and the newest one, and the subkey that `bound` binds. -/
structure Found (r : Reading) (data : Bytes) (key : PgpPublicKey) (packets : List (ℕ × Bytes))
    (s : Progress) (first : Bytes × Signature) (best : Signature) (subkey : Subkey)
    (bound : Signature) : Prop where
  size : ¬ maxKeyBytes < data.length
  packetsAre : readPackets data = some packets
  primaryIs : Primary.read packets = .ok r.primary
  looped : r.loop packets.tail = .ok s
  firstIs : (r.certified (components packets.tail)).head? = some first
  bestIs : newest (r.certified (components packets.tail)) = some best
  chosenIs : r.chosen (r.subkeysOf (components packets.tail)) = some (subkey, bound)
  keyIs : key = r.give (writePackets (keptPackets r.primary first subkey bound))
    ((r.certified (components packets.tail)).map fun c => DartString.utf8DecodeMalformed c.1)
    best.preferences subkey

theorem found_of_finish {r : Reading} {data : Bytes} {key : PgpPublicKey}
    {packets : List (ℕ × Bytes)} {s : Progress} (hsize : ¬ maxKeyBytes < data.length)
    (hpackets : readPackets data = some packets) (hprimary : Primary.read packets = .ok r.primary)
    (hloop : r.loop packets.tail = .ok s) (hfinish : r.finish s = .ok key) :
    ∃ first best subkey bound, Found r data key packets s first best subkey bound := by
  rw [(Reading.seen_of_loop hloop).finish] at hfinish
  split at hfinish
  · cases hfinish
  case h_2 found hchoose =>
    obtain ⟨first, best, subkey, bound, hfirst, hbest, rfl, hkey⟩ := Reading.conclude_ok hfinish
    exact ⟨first, best, subkey, bound, hsize, hpackets, hprimary, hloop, hfirst, hbest,
      (Reading.chooseSubkey_ok hchoose).symm, hkey⟩

theorem found_of_parse {c : Primitives} {sorting : Sorted.Descending} {data : Bytes} {now : ℤ}
    {key : PgpPublicKey} (h : PgpPublicKey.parse c sorting data now = .ok key) :
    ∃ primary packets s first best subkey bound,
      Found (Reading.mk c sorting primary now) data key packets s first best subkey bound := by
  unfold PgpPublicKey.parse at h
  split at h
  · cases h
  case isFalse hsize =>
    split at h
    · cases h
    case h_2 packets hpackets =>
      split at h
      · cases h
      case h_2 primary hprimary =>
        simp only at h
        split at h
        · cases h
        case h_2 s hloop =>
          exact ⟨primary, packets, s, found_of_finish hsize hpackets hprimary hloop h⟩

namespace Found

variable {r : Reading} {data : Bytes} {key : PgpPublicKey} {packets : List (ℕ × Bytes)}
  {s : Progress} {first : Bytes × Signature} {best : Signature} {subkey : Subkey}
  {bound : Signature} {later : ℤ}

section

variable (h : Found r data key packets s first best subkey bound)

include h

theorem usable : r.usable subkey bound = true := (Reading.of_chosen h.chosenIs).2.2.2

theorem vouched : r.Vouched first subkey bound := by
  refine Reading.vouched_of_found h.primaryIs (fun p hp => ?_) (mem_of_head? h.firstIs)
    h.chosenIs
  have hlength := length_of_readPackets h.packetsAre p hp
  have hsize := h.size
  have hmax : maxKeyBytes < 2 ^ 32 := by decide
  omega

theorem vouched_later (hsame : r.SameVerdicts packets.tail later) :
    (r.later later).Vouched first subkey bound := by
  obtain ⟨userId, huserId, -, hown, -⟩ := Reading.of_certified (mem_of_head? h.firstIs)
  obtain ⟨hsubkey, hboundOwn, -⟩ := Reading.of_chosen h.chosenIs
  obtain ⟨component, hcomponent, hread, -⟩ := Reading.of_subkeysOf hsubkey
  rw [(Reading.of_subkey? hread).2.1] at hboundOwn
  exact h.vouched.later (hsame.component huserId (Reading.mem_own hown).1)
    (hsame.component hcomponent (Reading.mem_own hboundOwn).1)

theorem usable_later_iff : (r.later later).usable subkey bound = true ↔
    ¬ isOver subkey.created bound.keyExpires later := by
  obtain ⟨htype, hflags, -⟩ := of_decide_eq_true h.usable
  exact ⟨fun hu => (of_decide_eq_true hu).2.2, fun hnot => decide_eq_true ⟨htype, hflags, hnot⟩⟩

theorem expired_iff (hsame : r.SameVerdicts packets.tail later)
    (hbudget : PgpPublicKey.parse r.primitives r.sorting data later ≠ .error .tooManySignatures) :
    PgpPublicKey.parse r.primitives r.sorting data later = .error .expired ↔
      isOver r.primary.created best.keyExpires later := by
  have hcertified : (r.later later).certified (components packets.tail) =
      r.certified (components packets.tail) :=
    Reading.certified_later fun component hc signature hs => hsame.component hc hs
  exact Reading.expired_iff (r := r.later later) h.size h.packetsAre h.primaryIs
    ((Reading.loop_later hsame).trans h.looped) (hcertified.symm ▸ h.bestIs) hbudget

theorem bytes : key.bytes = writePackets (keptPackets r.primary first subkey bound) := by
  rw [h.keyIs]
  rfl

/-- **The kept key at the same time**: it has to fit, and its own certificate has to last. -/
theorem again_iff : (∃ key', PgpPublicKey.parse r.primitives r.sorting key.bytes r.now = .ok key' ∧
      key'.fingerprint = key.fingerprint ∧ key'.signingKey = key.signingKey ∧
        key'.encryptionSubkey = key.encryptionSubkey ∧
          key'.symmetricPreferences = key.symmetricPreferences) ↔
      (writePackets (keptPackets r.primary first subkey bound)).length ≤ maxKeyBytes ∧
        first.2.preferences = best.preferences ∧
          ¬ isOver r.primary.created first.2.keyExpires r.now := by
  rw [h.bytes, h.vouched.parse, if_pos h.usable]
  constructor
  · rintro ⟨key', hparse, -, -, -, hprefers⟩
    split at hparse
    · cases hparse
    case isFalse hfits =>
      split at hparse
      · cases hparse
      case isFalse hlasts =>
        cases hparse
        rw [h.keyIs] at hprefers
        exact ⟨not_lt.mp hfits, hprefers, hlasts⟩
  · rintro ⟨hfits, hprefers, hlasts⟩
    rw [if_neg (not_lt.mpr hfits), if_neg hlasts, h.keyIs]
    exact ⟨_, rfl, rfl, rfl, rfl, hprefers⟩

/-- **The kept key at another time**: what fits is refused when the key or its subkey is over. -/
theorem refused_iff (hsame : r.SameVerdicts packets.tail later)
    (hfits : (writePackets (keptPackets r.primary first subkey bound)).length ≤ maxKeyBytes) :
    (∃ refusal, PgpPublicKey.parse r.primitives r.sorting key.bytes later = .error refusal) ↔
      isOver r.primary.created first.2.keyExpires later ∨
        isOver subkey.created bound.keyExpires later := by
  have hparse : PgpPublicKey.parse r.primitives r.sorting
      (writePackets (keptPackets r.primary first subkey bound)) later =
      if isOver r.primary.created first.2.keyExpires later then .error .expired
      else if (r.later later).usable subkey bound then
        .ok (r.give (writePackets (keptPackets r.primary first subkey bound))
          [DartString.utf8DecodeMalformed first.1] first.2.preferences subkey)
      else .error .noEncryptionKey :=
    (h.vouched_later hsame).parse.trans (if_neg (not_lt.mpr hfits))
  rw [h.bytes, hparse]
  by_cases hover : isOver r.primary.created first.2.keyExpires later
  · exact iff_of_true ⟨.expired, if_pos hover⟩ (.inl hover)
  rw [if_neg hover]
  by_cases hsubkey : isOver subkey.created bound.keyExpires later
  · have hnot : ¬ (r.later later).usable subkey bound = true :=
      fun hu => h.usable_later_iff.mp hu hsubkey
    exact iff_of_true ⟨.noEncryptionKey, if_neg hnot⟩ (.inr hsubkey)
  rw [if_pos (h.usable_later_iff.mpr hsubkey)]
  refine iff_of_false ?_ (not_or.mpr ⟨hover, hsubkey⟩)
  rintro ⟨refusal, hrefusal⟩
  cases hrefusal

end

end Found

/-- **A kept key behaves like the original exactly when the first certified user id speaks for the
key.** Signatures are taken to be as good at both times, and the budget of checks to suffice. -/
theorem behaves_iff (c : Primitives) (sorting : Sorted.Descending) {data : Bytes} {now later : ℤ}
    {key : PgpPublicKey} (h : PgpPublicKey.parse c sorting data now = .ok key)
    (hsame : SameVerdicts c sorting data now later)
    (hbudget : PgpPublicKey.parse c sorting data later ≠ .error .tooManySignatures) :
    Behaves c sorting data key now later ↔ FirstSpeaks c sorting data now later := by
  obtain ⟨primary, packets, s, first, best, subkey, bound, hfound⟩ := found_of_parse h
  have hverdicts := hsame packets primary hfound.packetsAre hfound.primaryIs
  constructor
  · rintro ⟨hagain, hexpires⟩ packets' primary' hpackets' hprimary'
    obtain rfl : packets = packets' := some.inj (hfound.packetsAre.symm.trans hpackets')
    obtain rfl : primary = primary' := Except.ok.inj (hfound.primaryIs.symm.trans hprimary')
    obtain ⟨hfits, hprefers, hlasts⟩ := hfound.again_iff.mp hagain
    refine ⟨?_, ?_, ?_, ?_⟩
    · intro first' hfirst' chosen' hchosen'
      obtain rfl : first = first' := some.inj (hfound.firstIs.symm.trans hfirst')
      obtain rfl : (subkey, bound) = chosen' :=
        some.inj (hfound.chosenIs.symm.trans hchosen')
      exact hfits
    · intro first' hfirst' best' hbest'
      obtain rfl : first = first' := some.inj (hfound.firstIs.symm.trans hfirst')
      obtain rfl : best = best' := some.inj (hfound.bestIs.symm.trans hbest')
      exact hprefers
    · intro first' hfirst'
      obtain rfl : first = first' := some.inj (hfound.firstIs.symm.trans hfirst')
      exact hlasts
    · intro first' hfirst' best' hbest' chosen' hchosen' hover
      obtain rfl : first = first' := some.inj (hfound.firstIs.symm.trans hfirst')
      obtain rfl : best = best' := some.inj (hfound.bestIs.symm.trans hbest')
      obtain rfl : (subkey, bound) = chosen' :=
        some.inj (hfound.chosenIs.symm.trans hchosen')
      have hrefused := hexpires ((hfound.expired_iff hverdicts hbudget).mpr hover)
      exact (hfound.refused_iff hverdicts hfits).mp hrefused
  · intro hspeaks
    have hspeaks := hspeaks packets primary hfound.packetsAre hfound.primaryIs
    have hfits := hspeaks.fits first hfound.firstIs _ hfound.chosenIs
    refine ⟨?_, fun hexpired => ?_⟩
    · exact hfound.again_iff.mpr ⟨hfits, hspeaks.prefers first hfound.firstIs best hfound.bestIs,
        hspeaks.lasts first hfound.firstIs⟩
    · have hover := (hfound.expired_iff hverdicts hbudget).mp hexpired
      exact (hfound.refused_iff hverdicts hfits).mpr
        (hspeaks.expires first hfound.firstIs best hfound.bestIs _ hfound.chosenIs hover)

/-! ### A key whose first user id does not speak for it

The key has two user ids. The certificate of the first is older and asks for AES-256; that of the
second asks for AES-128 and lets the key expire after a hundred seconds. -/

namespace Sample

def primaryBody : Bytes :=
  [4, 101, 83, 241, 0, 22, 9, 43, 6, 1, 4, 1, 218, 71, 15, 1, 1, 7, 64, 3, 161, 7, 191, 243, 206,
   16, 190, 29, 112, 221, 24, 231, 75, 192, 153, 103, 228, 214, 48, 155, 165, 13, 95, 29, 220,
   134, 100, 18, 85, 49, 184]

def signingKey : Bytes := primaryBody.drop 19

def subkeyBody : Bytes :=
  [4, 101, 83, 241, 0, 18, 10, 43, 6, 1, 4, 1, 151, 85, 1, 5, 1, 1, 7, 64, 53, 128, 114, 214, 54,
   88, 128, 209, 174, 234, 50, 154, 223, 145, 33, 56, 56, 81, 237, 33, 162, 142, 59, 117, 233,
   101, 208, 210, 205, 22, 98, 84, 3, 1, 8, 7]

def firstUserId : Bytes := [60, 97, 64, 120, 62]

def secondUserId : Bytes := [60, 98, 64, 120, 62]

def firstArea : Bytes := [4, 19, 22, 8, 0, 9, 5, 2, 101, 83, 241, 1, 2, 11, 9]

def secondArea : Bytes :=
  [4, 19, 22, 8, 0, 15, 5, 2, 101, 83, 241, 2, 5, 9, 0, 0, 0, 100, 2, 11, 7]

def bindingArea : Bytes := [4, 24, 22, 8, 0, 9, 5, 2, 101, 83, 241, 1, 2, 27, 12]

def firstSignature : Bytes :=
  [119, 170, 124, 195, 9, 27, 94, 110, 126, 25, 183, 219, 45, 47, 100, 137, 138, 80, 86, 206, 97,
   126, 149, 99, 208, 211, 143, 139, 191, 172, 247, 33, 111, 53, 99, 204, 114, 179, 6, 246, 232,
   29, 228, 104, 13, 161, 17, 202, 240, 93, 128, 223, 35, 40, 59, 72, 86, 105, 47, 99, 37, 18,
   152, 13]

def secondSignature : Bytes :=
  [238, 5, 84, 211, 97, 16, 80, 135, 254, 85, 134, 63, 112, 114, 75, 30, 56, 114, 20, 194, 43, 83,
   48, 170, 81, 143, 72, 25, 150, 42, 110, 207, 207, 209, 192, 1, 166, 151, 15, 229, 40, 137, 7,
   31, 39, 175, 143, 148, 39, 83, 137, 76, 118, 224, 110, 148, 182, 29, 88, 234, 60, 241, 68, 14]

def bindingSignature : Bytes :=
  [117, 68, 176, 105, 31, 99, 229, 90, 255, 189, 115, 231, 53, 31, 191, 67, 174, 134, 203, 191,
   187, 66, 176, 40, 193, 48, 95, 96, 132, 100, 144, 96, 118, 253, 8, 154, 5, 49, 82, 85, 246, 87,
   216, 91, 27, 162, 20, 11, 223, 124, 34, 145, 75, 247, 0, 167, 180, 67, 26, 17, 185, 194, 229,
   6]

def firstDigest : Bytes :=
  [93, 223, 117, 48, 24, 142, 166, 138, 218, 232, 13, 128, 159, 37, 221, 48, 201, 55, 255, 115,
   96, 241, 26, 177, 197, 224, 238, 69, 15, 224, 199, 170]

def secondDigest : Bytes :=
  [20, 150, 155, 62, 58, 77, 130, 13, 128, 101, 176, 1, 14, 12, 211, 65, 78, 242, 140, 88, 90,
   126, 152, 8, 34, 228, 249, 79, 176, 207, 250, 143]

def bindingDigest : Bytes :=
  [81, 239, 149, 33, 19, 254, 193, 161, 30, 119, 9, 81, 181, 167, 56, 192, 249, 240, 120, 236,
   215, 67, 145, 47, 236, 136, 109, 36, 105, 118, 39, 111]

/-- A signature packet: the hashed fields, no unhashed subpackets, two bytes of the digest and the
two halves, each with its length in bits. -/
def signaturePacket (area digest signature : Bytes) (bits : ℕ × ℕ) : Bytes :=
  area ++ [0, 0] ++ digest.take 2 ++ (bigEndian 2 bits.1 ++ signature.take 32) ++
    (bigEndian 2 bits.2 ++ signature.drop 32)

def firstPacket : Bytes := signaturePacket firstArea firstDigest firstSignature (255, 255)

def secondPacket : Bytes := signaturePacket secondArea secondDigest secondSignature (256, 256)

def bindingPacket : Bytes := signaturePacket bindingArea bindingDigest bindingSignature (255, 255)

def data : Bytes := writePackets [(6, primaryBody), (13, firstUserId), (2, firstPacket),
  (13, secondUserId), (2, secondPacket), (14, subkeyBody), (2, bindingPacket)]

def signed (subject area : Bytes) : Bytes :=
  hashedKey primaryBody ++ subject ++ area ++ (0x04 :: 0xff :: bigEndian 4 area.length)

def fingerprint : Bytes :=
  [5, 80, 244, 95, 85, 116, 108, 236, 163, 232, 174, 151, 247, 163, 37, 104, 226, 1, 150, 82]

def subkeyFingerprint : Bytes :=
  [209, 92, 65, 154, 118, 181, 184, 65, 80, 40, 198, 212, 16, 210, 32, 216, 44, 38, 138, 192]

def primitives : Primitives where
  sha1 message :=
    if message = hashedKey primaryBody then fingerprint
    else if message = hashedKey subkeyBody then subkeyFingerprint
    else []
  sha256 message :=
    if message = signed (0xb4 :: 0 :: 0 :: 0 :: 5 :: firstUserId) firstArea then firstDigest
    else if message = signed (0xb4 :: 0 :: 0 :: 0 :: 5 :: secondUserId) secondArea then secondDigest
    else if message = signed (hashedKey subkeyBody) bindingArea then bindingDigest
    else []
  sha224 _ := []
  sha384 _ := []
  sha512 _ := []
  ed25519 publicKey message signature :=
    publicKey = signingKey ∧ (message, signature) ∈
      [(firstDigest, firstSignature), (secondDigest, secondSignature),
        (bindingDigest, bindingSignature)]

def now : ℤ := 1700000050000

def later : ℤ := 1700000170000

def key : PgpPublicKey where
  bytes := writePackets [(6, primaryBody), (13, firstUserId), (2, firstPacket), (14, subkeyBody),
    (2, bindingPacket)]
  body := primaryBody
  fingerprint := fingerprint
  signingKey := signingKey
  userIds := [DartString.utf8DecodeMalformed firstUserId,
    DartString.utf8DecodeMalformed secondUserId]
  encryptionSubkey := {
    body := subkeyBody
    fingerprint := subkeyFingerprint
    publicKey := (subkeyBody.drop 20).take 32
    wrapCipher := aes128 }
  symmetricPreferences := [aes128]

def keptKey : PgpPublicKey :=
  { key with
    userIds := [DartString.utf8DecodeMalformed firstUserId]
    symmetricPreferences := [aes256] }

theorem parses :
    PgpPublicKey.parse primitives .insertion data now = .ok key ∧
      PgpPublicKey.parse primitives .insertion key.bytes now = .ok keptKey ∧
      PgpPublicKey.parse primitives .insertion data later = .error .expired ∧
      PgpPublicKey.parse primitives .insertion key.bytes later = .ok keptKey ∧
      sameTimes data now later = true := by
  decide +kernel

theorem parse_data_later :
    PgpPublicKey.parse primitives .insertion data later = .error .expired := parses.2.2.1

theorem sameVerdicts : SameVerdicts primitives .insertion data now later :=
  sameVerdicts_of_isOf parses.2.2.2.2

theorem withinBudget :
    PgpPublicKey.parse primitives .insertion data later ≠ .error .tooManySignatures := by
  rw [parse_data_later]
  decide

theorem not_behaves : ¬ Behaves primitives .insertion data key now later := by
  rintro ⟨⟨key', hparse, -, -, -, hprefers⟩, -⟩
  obtain rfl : keptKey = key' := Except.ok.inj (parses.2.1.symm.trans hparse)
  revert hprefers
  decide

/-- **The kept key prefers another cipher, and it is read when the original has expired.** -/
theorem kept_outlives_original :
    PgpPublicKey.parse primitives .insertion data now = .ok key ∧ now ≤ later ∧
      SameVerdicts primitives .insertion data now later ∧
        PgpPublicKey.parse primitives .insertion data later = .error .expired ∧
          (∃ key', PgpPublicKey.parse primitives .insertion key.bytes now = .ok key' ∧
            key'.symmetricPreferences ≠ key.symmetricPreferences) ∧
            (∃ key', PgpPublicKey.parse primitives .insertion key.bytes later = .ok key') ∧
              ¬ Behaves primitives .insertion data key now later :=
  ⟨parses.1, by decide, sameVerdicts, parse_data_later, ⟨keptKey, parses.2.1, by decide⟩,
    ⟨keptKey, parses.2.2.2.1⟩, not_behaves⟩

theorem first_does_not_speak : ¬ FirstSpeaks primitives .insertion data now later := fun hspeaks =>
  not_behaves ((behaves_iff primitives .insertion parses.1 sameVerdicts withinBudget).mpr hspeaks)

end Sample

end OpenPgp
end Mail
end Conest

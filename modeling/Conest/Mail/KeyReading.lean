import Conest.Mail.PublicKey

/-!
# What is read of a key

What `parse` makes of the packets is described without the order in which it goes about it. The loop
finds the certified user ids, each with its newest good certificate (`certified`), the newest of
these certificates (`newest`) and the subkeys (`subkeysOf`); that is the invariant `Seen`, which one
packet keeps (`Seen.step`). The subkey is the newest that can be used (`chosen`), and `conclude`
puts the key together (`Seen.finish`). The budget of checks ends in an error or in nothing.

A signature depends on the time only in whether it is of that time. So at another time at which each
signature is as good as before, the loop finds the same (`loop_later`).
-/

namespace Conest
namespace Mail
namespace OpenPgp

open Lib List Option

/-! ### What the checks find -/

namespace Reading

variable {r : Reading}

variable {signatures : List Signature}

theorem firstGood_ok {parts : List Bytes} {checks left : ℕ} {found : Option Signature}
    (h : r.firstGood parts checks signatures = .ok (found, left)) :
    found = signatures.find? (r.verify parts) := by
  induction signatures generalizing checks with
  | nil =>
    rw [firstGood] at h
    cases h
    rfl
  | cons signature signatures ih =>
  cases checks with
  | zero => cases h
  | succ checks =>
  rw [firstGood] at h
  rw [find?_cons]
  split at h
  case isTrue hgood =>
    cases h
    rw [hgood]
  case isFalse hbad =>
    rw [Bool.eq_false_iff.mpr hbad]
    exact ih h

theorem firstGood_error {parts : List Bytes} {checks : ℕ} {refusal : Refusal}
    (h : r.firstGood parts checks signatures = .error refusal) : refusal = .tooManySignatures := by
  induction signatures generalizing checks with
  | nil =>
    rw [firstGood] at h
    cases h
  | cons signature signatures ih =>
  cases checks with
  | zero =>
    cases h
    rfl
  | succ checks =>
    rw [firstGood] at h
    split at h
    · cases h
    · exact ih h

theorem mem_own {types : List UInt8} {signature : Signature}
    (h : signature ∈ r.own types signatures) :
    signature ∈ signatures ∧ signature.type ∈ types ∧ signature.mayBeFrom r.fingerprint = true := by
  have hmem := (r.sorting.mem_sort).mp (mem_of_mem_take h)
  obtain ⟨hin, hown⟩ := mem_filter.mp hmem
  obtain ⟨htype, hfrom⟩ := of_decide_eq_true hown
  exact ⟨hin, htype, hfrom⟩

theorem own_singleton {types : List UInt8} {signature : Signature} (htype : signature.type ∈ types)
    (hfrom : signature.mayBeFrom r.fingerprint = true) : r.own types [signature] = [signature] := by
  have hown : [signature].filter (fun signature =>
      decide (signature.type ∈ types ∧ signature.mayBeFrom r.fingerprint = true)) = [signature] :=
    filter_cons_of_pos (decide_eq_true ⟨htype, hfrom⟩)
  rw [own, hown, Sorted.Descending.sort_singleton]
  rfl

/-! ### What the loop has seen -/

variable (r)

/-- A user id that is not too long to be read. -/
def isUserId (component : Component) : Bool :=
  component.tag = 13 ∧ component.body.length ≤ maxUserIdBytes

/-- The newest good certificate of a user id. -/
def certificate (component : Component) : Option Signature :=
  (r.own certificationTypes component.signatures).find? (r.verify (r.userIdParts component.body))

/-- The user ids that the key certifies, each with its certificate. -/
def certified (components : List Component) : List (Bytes × Signature) :=
  ((components.filter isUserId).take maxComponents).filterMap fun component =>
    (r.certificate component).map fun best => (component.body, best)

/-- The subkeys that may be used, as they stand in the key. -/
def subkeysOf (components : List Component) : List Subkey :=
  (components.filter fun component => component.tag = 14).filterMap r.subkey?

end Reading

/-- The newer of two certificates, the first of them if neither is. -/
def newer (best : Option Signature) (certificate : Bytes × Signature) : Option Signature :=
  if best.all fun best => decide (best.created < certificate.2.created) then some certificate.2
  else best

/-- The newest certificate over all user ids. -/
def newest (certificates : List (Bytes × Signature)) : Option Signature :=
  certificates.foldl newer none

theorem newest_append (certificates : List (Bytes × Signature)) (certificate : Bytes × Signature) :
    newest (certificates ++ [certificate]) = newer (newest certificates) certificate := by
  rw [newest, foldl_append]
  rfl

theorem newest_eq_none {certificates : List (Bytes × Signature)} :
    newest certificates = none ↔ certificates = [] := by
  induction certificates using reverseRecOn with
  | nil => exact iff_of_true rfl rfl
  | append_singleton certificates certificate ih =>
  refine iff_of_false ?_ (by simp)
  rw [newest_append, newer]
  split
  case isTrue => exact some_ne_none _
  case isFalse hall =>
    intro hnone
    rw [hnone] at hall
    exact hall rfl

/-- The written form of the first certified user id. -/
def writtenUserId (certificates : List (Bytes × Signature)) : Bytes :=
  (certificates.head?.map fun first => packet 13 first.1 ++ packet 2 first.2.raw).getD []

namespace Reading

variable (r : Reading)

variable {packets : List (ℕ × Bytes)} {s s' : Progress} {seen : List Component}
  {subkeys : List Subkey} {checks : ℕ}

/-- **What the loop has found** in the packets it has seen. -/
structure Seen (seen : List Component) (s : Progress) : Prop where
  count : s.userIdCount = (seen.filter isUserId).length
  userIds : s.userIds = (r.certified seen).map fun c => DartString.utf8DecodeMalformed c.1
  kept : s.kept = packet 6 r.primary.body ++ writtenUserId (r.certified seen)
  time : s.preferenceTime =
    ((newest (r.certified seen)).map fun best => (best.created : ℤ)).getD (-1)
  preferences : s.preferences = ((newest (r.certified seen)).map Signature.preferences).getD []
  expires : s.keyExpires = ((newest (r.certified seen)).map Signature.keyExpires).getD 0
  subkeys : s.subkeys = r.subkeysOf seen

variable {r}

theorem certified_append (seen : List Component) (component : Component) :
    r.certified (seen ++ [component]) = r.certified seen ++
      if isUserId component ∧ (seen.filter isUserId).length < maxComponents then
        ((r.certificate component).map fun best => (component.body, best)).toList
      else [] := by
  unfold certified
  rw [filter_append]
  by_cases hid : isUserId component = true
  · rw [filter_cons_of_pos hid]
    by_cases hroom : (seen.filter isUserId).length < maxComponents
    · rw [if_pos ⟨hid, hroom⟩, take_of_length_le (by simp; omega),
        take_of_length_le hroom.le, filterMap_append]
      rfl
    · rw [if_neg fun h => hroom h.2, append_nil,
        take_append_of_le_length (not_lt.mp hroom)]
  · rw [if_neg fun h => hid h.1, append_nil, filter_cons_of_neg hid, filter_nil,
      append_nil]

theorem subkeysOf_append (seen : List Component) (component : Component) :
    r.subkeysOf (seen ++ [component]) = r.subkeysOf seen ++
      if component.tag = 14 then (r.subkey? component).toList else [] := by
  unfold subkeysOf
  congr 1
  split
  case isTrue htag =>
    cases h : r.subkey? component <;> simp [htag, h]
  case isFalse htag => simp [htag]

theorem Seen.skip {component : Component} (h : r.Seen seen s)
    (hcount : s'.userIdCount = s.userIdCount + if isUserId component then 1 else 0)
    (hsame : { s' with checks := s.checks, userIdCount := s.userIdCount } = s)
    (hcertified : r.certified (seen ++ [component]) = r.certified seen)
    (htag : component.tag ≠ 14) : r.Seen (seen ++ [component]) s' := by
  have hsubkeys : r.subkeysOf (seen ++ [component]) = r.subkeysOf seen := by
    rw [subkeysOf_append, if_neg htag, append_nil]
  refine ⟨?_, ?_, ?_, ?_, ?_, ?_, ?_⟩
  · rw [hcount, h.count, filter_append]
    by_cases hid : isUserId component = true <;> simp [hid]
  · rw [hcertified, ← h.userIds, ← hsame]
  · rw [hcertified, ← h.kept, ← hsame]
  · rw [hcertified, ← h.time, ← hsame]
  · rw [hcertified, ← h.preferences, ← hsame]
  · rw [hcertified, ← h.expires, ← hsame]
  · rw [hsubkeys, ← h.subkeys, ← hsame]

theorem newer_of_time {best : Option Signature} {certificate : Bytes × Signature} :
    newer best certificate =
      if (best.map fun best => (best.created : ℤ)).getD (-1) < certificate.2.created then
        some certificate.2 else best := by
  cases best with
  | none =>
    rfl
  | some best => simp [newer]

theorem Seen.certify {component : Component} {best : Signature} (h : r.Seen seen s)
    (hid : isUserId component = true) (hcertified : r.certified (seen ++ [component]) =
      r.certified seen ++ [(component.body, best)]) (htag : component.tag ≠ 14) :
    r.Seen (seen ++ [component])
      ({ s with userIdCount := s.userIdCount + 1, checks }.certify component.body best) := by
  have hnewest : newest (r.certified (seen ++ [component])) =
      if s.preferenceTime < best.created then some best else newest (r.certified seen) := by
    rw [hcertified, newest_append, newer_of_time, ← h.time]
  refine ⟨?_, ?_, ?_, ?_, ?_, ?_, ?_⟩
  · rw [filter_append, length_append, ← h.count, filter_cons_of_pos hid]
    rfl
  · rw [hcertified, map_append, ← h.userIds]
    rfl
  · -- only the first user id is written
    rw [hcertified, Progress.certify]
    cases hfirst : r.certified seen with
    | nil =>
      rw [if_pos (by rw [h.userIds, hfirst]; rfl), h.kept, hfirst]
      simp [writtenUserId]
    | cons first rest =>
      rw [if_neg (by rw [h.userIds, hfirst]; exact cons_ne_nil _ _), h.kept, hfirst]
      rfl
  · rw [hnewest, apply_ite (Option.map _), apply_ite (Option.getD · _), ← h.time]
    rfl
  · rw [hnewest, apply_ite (Option.map _), apply_ite (Option.getD · _),
      ← h.preferences]
    rfl
  · rw [hnewest, apply_ite (Option.map _), apply_ite (Option.getD · _),
      ← h.expires]
    rfl
  · rw [subkeysOf_append, if_neg htag, append_nil]
    exact h.subkeys

theorem Seen.step {component : Component} (h : r.Seen seen s)
    (hread : r.readComponent s component = .ok s') : r.Seen (seen ++ [component]) s' := by
  unfold readComponent at hread
  split at hread
  case isTrue htag =>
    have h14 : component.tag ≠ 14 := by
      rw [htag]
      decide
    split at hread
    case isTrue hlong =>
      have hid : isUserId component ≠ true := fun hid =>
        absurd (of_decide_eq_true hid).2 (not_le.mpr hlong)
      cases hread
      refine h.skip ?_ rfl ?_ h14
      · rw [if_neg hid, Nat.add_zero]
      · rw [certified_append, if_neg fun hh => hid hh.1, append_nil]
    case isFalse hshort =>
      have hid : isUserId component = true := decide_eq_true ⟨htag, not_lt.mp hshort⟩
      simp only at hread
      split at hread
      case isTrue hfull =>
        cases hread
        refine h.skip ?_ rfl ?_ h14
        · rw [if_pos hid]
        · have hmany : ¬ (seen.filter isUserId).length < maxComponents := by
            rw [← h.count]
            omega
          rw [certified_append, if_neg fun hh => hmany hh.2, append_nil]
      case isFalse hroom =>
        have hcertified := r.certified_append seen component
        rw [if_pos ⟨hid, by rw [← h.count]; omega⟩] at hcertified
        split at hread
        · cases hread
        case h_2 hgood =>
          cases hread
          have hnone : r.certificate component = none := (firstGood_ok hgood).symm
          rw [hnone, map_none, toList_none, append_nil] at hcertified
          refine h.skip ?_ rfl hcertified h14
          rw [if_pos hid]
        case h_3 hgood =>
          cases hread
          have hsome : r.certificate component = some _ := (firstGood_ok hgood).symm
          rw [hsome] at hcertified
          exact h.certify hid hcertified h14
  case isFalse htag =>
    have hid : isUserId component ≠ true := fun hid => htag (of_decide_eq_true hid).1
    have hcertified : r.certified (seen ++ [component]) = r.certified seen := by
      rw [certified_append, if_neg fun hh => hid hh.1, append_nil]
    split at hread
    case isTrue h14 =>
      cases hread
      refine ⟨?_, ?_, ?_, ?_, ?_, ?_, ?_⟩
      · rw [filter_append, filter_cons_of_neg hid, filter_nil, append_nil]
        exact h.count
      · rw [hcertified]
        exact h.userIds
      · rw [hcertified]
        exact h.kept
      · rw [hcertified]
        exact h.time
      · rw [hcertified]
        exact h.preferences
      · rw [hcertified]
        exact h.expires
      · rw [subkeysOf_append, if_pos h14, ← h.subkeys]
    case isFalse h14 =>
      cases hread
      refine h.skip ?_ rfl hcertified h14
      rw [if_neg hid, Nat.add_zero]

theorem seen_start (checks : ℕ) : r.Seen [] (.start r.primary checks) where
  count := rfl
  userIds := rfl
  kept := (append_nil _).symm
  time := rfl
  preferences := rfl
  expires := rfl
  subkeys := rfl

theorem Seen.run {components : List Component} (h : r.Seen seen s)
    (hread : components.foldlM r.readComponent s = .ok s') : r.Seen (seen ++ components) s' := by
  induction components generalizing seen s with
  | nil =>
    cases hread
    rw [append_nil]
    exact h
  | cons component components ih =>
  rw [foldlM_cons] at hread
  cases hstep : r.readComponent s component with
  | error refusal =>
    rw [hstep] at hread
    cases hread
  | ok next =>
    rw [hstep] at hread
    rw [append_cons]
    exact ih (h.step hstep) hread

/-- **The loop finds** the certified user ids and the subkeys of all packets. -/
theorem seen_of_loop (h : r.loop packets = .ok s) : r.Seen (components packets) s := by
  unfold loop at h
  split at h
  · cases h
  · exact (seen_start _).run h

/-! ### The subkey that is chosen -/

variable (r)

/-- The good binding of a subkey that can be used. -/
def binding (subkey : Subkey) : Option Signature :=
  (subkey.own.find? (r.verify (r.subkeyParts subkey))).filter (r.usable subkey)

/-- The newest subkey that can be used, of those that are checked. -/
def chosen (subkeys : List Subkey) : Option (Subkey × Signature) :=
  ((r.sorting.sort Subkey.created subkeys).take maxSubkeysChecked).findSome? fun subkey =>
    (r.binding subkey).map fun binding => (subkey, binding)

variable {r}

theorem chooseSubkey_ok {found : Option (Subkey × Signature)}
    (h : r.chooseSubkey checks subkeys = .ok found) : found = subkeys.findSome? fun subkey =>
      (r.binding subkey).map fun binding => (subkey, binding) := by
  induction subkeys generalizing checks with
  | nil =>
    cases h
    rfl
  | cons subkey subkeys ih =>
  rw [chooseSubkey] at h
  rw [findSome?_cons]
  split at h
  · cases h
  case h_2 hgood =>
    rw [binding, ← firstGood_ok hgood]
    exact ih h
  case h_3 hgood =>
    rw [binding, ← firstGood_ok hgood]
    split at h
    case isTrue husable =>
      cases h
      rw [filter_some_pos husable]
      rfl
    case isFalse hnot =>
      rw [filter_some_neg (Bool.eq_false_iff.mpr hnot)]
      exact ih h

theorem chooseSubkey_error {refusal : Refusal}
    (h : r.chooseSubkey checks subkeys = .error refusal) : refusal = .tooManySignatures := by
  induction subkeys generalizing checks with
  | nil =>
    cases h
  | cons subkey subkeys ih =>
  rw [chooseSubkey] at h
  split at h
  case h_1 hgood =>
    cases h
    exact firstGood_error hgood
  · exact ih h
  · split at h
    · cases h
    · exact ih h

theorem of_chosen {subkey : Subkey} {binding : Signature}
    (h : r.chosen subkeys = some (subkey, binding)) :
    subkey ∈ subkeys ∧ binding ∈ subkey.own ∧ r.verify (r.subkeyParts subkey) binding = true ∧
      r.usable subkey binding = true := by
  obtain ⟨subkey', hmem, hbinding⟩ := exists_of_findSome?_eq_some h
  obtain ⟨binding', hbinding, hpair⟩ := map_eq_some_iff.mp hbinding
  cases hpair
  obtain ⟨hfound, husable⟩ := filter_eq_some_iff.mp hbinding
  exact ⟨r.sorting.mem_sort.mp (mem_of_mem_take hmem), mem_of_find?_eq_some hfound,
    find?_some hfound, husable⟩

/-! ### What the key is made of -/

/-- The key that is put together from what was found. -/
def give (r : Reading) (bytes : Bytes) (userIds : List DartString) (preferences : Bytes)
    (subkey : Subkey) : PgpPublicKey where
  bytes := bytes
  body := r.primary.body
  fingerprint := r.fingerprint
  signingKey := r.primary.signingKey
  userIds := userIds
  encryptionSubkey := {
    body := subkey.body
    fingerprint := r.primitives.fingerprint subkey.body
    publicKey := subkey.cv25519.1
    wrapCipher := subkey.cv25519.2 }
  symmetricPreferences := preferences

/-- The key that certificates and a subkey make: the newest certificate says what is preferred and
how long the key lasts, and the first is kept. -/
def conclude (r : Reading) (certificates : List (Bytes × Signature))
    (chosen : Option (Subkey × Signature)) : Except Refusal PgpPublicKey :=
  match newest certificates with
  | none => .error .noUserId
  | some best =>
    if isOver r.primary.created best.keyExpires r.now then .error .expired
    else
      match chosen with
      | none => .error .noEncryptionKey
      | some (subkey, binding) => .ok (r.give
          (packet 6 r.primary.body ++ writtenUserId certificates ++ packet 14 subkey.body ++
            packet 2 binding.raw)
          (certificates.map fun c => DartString.utf8DecodeMalformed c.1) best.preferences subkey)

theorem Seen.finish {components : List Component} (h : r.Seen components s) : r.finish s =
      match r.chooseSubkey s.checks
        ((r.sorting.sort Subkey.created (r.subkeysOf components)).take maxSubkeysChecked) with
      | .error refusal => .error refusal
      | .ok chosen => r.conclude (r.certified components) chosen := by
  unfold Reading.finish
  rw [← h.subkeys]
  cases r.chooseSubkey s.checks
    ((r.sorting.sort Subkey.created s.subkeys).take maxSubkeysChecked) with
  | error refusal => rfl
  | ok chosen =>
    unfold conclude
    rw [h.userIds, h.expires, h.preferences, h.kept]
    cases hnewest : newest (r.certified components) with
    | none =>
      rw [newest_eq_none.mp hnewest]
      rfl
    | some best =>
    have hne :
        (r.certified components).map (fun c => DartString.utf8DecodeMalformed c.1) ≠ [] := by
      intro hnil
      rw [map_eq_nil_iff.mp hnil] at hnewest
      cases hnewest
    simp only [if_neg hne]
    rfl

theorem parse_of_read {data : Bytes} (hsize : ¬ maxKeyBytes < data.length)
    (hpackets : readPackets data = some packets) (hprimary : Primary.read packets = .ok r.primary) :
    PgpPublicKey.parse r.primitives r.sorting data r.now =
      match r.loop packets.tail with
      | .error refusal => .error refusal
      | .ok s => r.finish s := by
  unfold PgpPublicKey.parse
  rw [if_neg hsize, hpackets]
  simp only [hprimary]
  all_goals rfl

/-! ### The same key at another time -/

variable (r)

/-- The same key, read at another time. -/
def later (now : ℤ) : Reading := { r with now }

/-- Each signature among the packets is as good at the other time. -/
def SameVerdicts (packets : List (ℕ × Bytes)) (now : ℤ) : Prop :=
  ∀ packet ∈ packets, ∀ signature, Signature.tryRead packet.2 = some signature →
    ∀ parts, (r.later now).verify parts signature = r.verify parts signature

variable {r} {now : ℤ}

theorem firstGood_later {parts : List Bytes} {signatures : List Signature}
    (h : ∀ s ∈ signatures, (r.later now).verify parts s = r.verify parts s) (checks : ℕ) :
    (r.later now).firstGood parts checks signatures = r.firstGood parts checks signatures := by
  induction signatures generalizing checks with
  | nil =>
    rw [firstGood, firstGood]
  | cons signature signatures ih =>
  cases checks with
  | zero => rfl
  | succ checks =>
    rw [firstGood, firstGood, h signature mem_cons_self,
      ih fun s hs => h s (mem_cons_of_mem _ hs)]

theorem mem_of_gather : (∀ body ∈ (gather packets).1, (2, body) ∈ packets) ∧
      ∀ component ∈ (gather packets).2, ∀ body ∈ component.2, (2, body) ∈ packets := by
  induction packets with
  | nil => exact ⟨fun body hb => absurd hb not_mem_nil, fun c hc => absurd hc not_mem_nil⟩
  | cons packet packets ih =>
  obtain ⟨tag, body⟩ := packet
  obtain ⟨hfront, hcomponents⟩ := ih
  rw [gather]
  simp only
  split
  case isTrue htag =>
    subst htag
    refine ⟨fun b hb => ?_, fun c hc b hb => mem_cons_of_mem _ (hcomponents c hc b hb)⟩
    rcases mem_cons.mp hb with rfl | hrest
    · exact mem_cons_self
    · exact mem_cons_of_mem _ (hfront b hrest)
  case isFalse htag =>
    refine ⟨fun b hb => absurd hb not_mem_nil, fun c hc b hb => ?_⟩
    rcases mem_cons.mp hc with rfl | hrest
    · exact mem_cons_of_mem _ (hfront b hb)
    · exact mem_cons_of_mem _ (hcomponents c hrest b hb)

theorem packet_of_gather : ∀ component ∈ (gather packets).2, component.1 ∈ packets := by
  induction packets with
  | nil => exact fun c hc => absurd hc not_mem_nil
  | cons packet packets ih =>
  have hgather : (gather (packet :: packets)).2 = if packet.1 = 2 then (gather packets).2
      else (packet, (gather packets).1) :: (gather packets).2 := by
    show (if packet.1 = 2 then (packet.2 :: (gather packets).1, (gather packets).2)
      else ([], (packet, (gather packets).1) :: (gather packets).2)).2 = _
    split <;> rfl
  intro c hc
  rw [hgather] at hc
  split at hc
  · exact mem_cons_of_mem _ (ih c hc)
  · rcases mem_cons.mp hc with rfl | hrest
    · exact mem_cons_self
    · exact mem_cons_of_mem _ (ih c hrest)

theorem SameVerdicts.component (h : r.SameVerdicts packets now) {component : Component}
    (hmem : component ∈ components packets) {signature : Signature}
    (hsignature : signature ∈ component.signatures) (parts : List Bytes) :
    (r.later now).verify parts signature = r.verify parts signature := by
  obtain ⟨gathered, hgathered, rfl⟩ := mem_map.mp hmem
  obtain ⟨body, hbody, hread⟩ := mem_filterMap.mp hsignature
  exact h _ (mem_of_gather.2 gathered hgathered body hbody) signature hread parts

theorem checkRevocations_later {bodies : List Bytes}
    (h : ∀ body ∈ bodies, ∀ s, Signature.tryRead body = some s →
      ∀ parts, (r.later now).verify parts s = r.verify parts s) (checks revocationChecks : ℕ) :
    (r.later now).checkRevocations checks revocationChecks bodies =
      r.checkRevocations checks revocationChecks bodies := by
  induction bodies generalizing checks revocationChecks with
  | nil => rw [checkRevocations, checkRevocations]
  | cons body bodies ih =>
  have hrest := ih fun b hb => h b (mem_cons_of_mem _ hb)
  have hbody := h body mem_cons_self
  rw [checkRevocations, checkRevocations]
  cases hread : Signature.tryRead body with
  | none => exact hrest _ _
  | some signature =>
    have hfingerprint : (r.later now).fingerprint = r.fingerprint := rfl
    have hmaterial : (r.later now).keyMaterial = r.keyMaterial := rfl
    simp only [hrest, hfingerprint, hmaterial, hbody signature hread]

theorem readComponent_later {component : Component}
    (h : ∀ signature ∈ component.signatures, ∀ parts,
      (r.later now).verify parts signature = r.verify parts signature) (s : Progress) :
    (r.later now).readComponent s component = r.readComponent s component := by
  have hgood : ∀ checks, (r.later now).firstGood (r.userIdParts component.body) checks
      (r.own certificationTypes component.signatures) =
      r.firstGood (r.userIdParts component.body) checks
        (r.own certificationTypes component.signatures) :=
    firstGood_later fun signature hs => h signature (mem_own hs).1 _
  unfold readComponent
  simp only [← hgood]
  rfl

theorem certified_later {components : List Component}
    (h : ∀ component ∈ components, ∀ signature ∈ component.signatures, ∀ parts,
      (r.later now).verify parts signature = r.verify parts signature) :
    (r.later now).certified components = r.certified components := by
  refine filterMap_congr fun component hc => ?_
  have hmem := mem_of_mem_filter (mem_of_mem_take hc)
  have hfind : (r.later now).certificate component = r.certificate component :=
    find?_congr fun signature hs => h component hmem signature (mem_own hs).1 _
  rw [hfind]

/-- **The loop finds the same** at a time at which every signature is as good. -/
theorem loop_later (h : r.SameVerdicts packets now) :
    (r.later now).loop packets = r.loop packets := by
  have hfront : (r.later now).checkRevocations maxChecksPerKey 0 (gather packets).1 =
      r.checkRevocations maxChecksPerKey 0 (gather packets).1 :=
    checkRevocations_later (fun body hb s hs => h _ (mem_of_gather.1 body hb) s hs) _ _
  have hcomponents : ∀ cs ⊆ components packets, ∀ s,
      cs.foldlM (r.later now).readComponent s = cs.foldlM r.readComponent s := by
    intro cs hcs
    induction cs with
    | nil => exact fun s => rfl
    | cons component cs ih =>
    intro s
    have hstep : (r.later now).readComponent s component = r.readComponent s component :=
      readComponent_later (fun signature hs => h.component (hcs mem_cons_self) hs) s
    rw [foldlM_cons]
    congr 1
    funext next
    exact ih (fun c hc => hcs (mem_cons_of_mem _ hc)) next
  unfold loop
  rw [hfront]
  split
  · rfl
  · exact hcomponents _ (List.Subset.refl _) _

end Reading

end OpenPgp
end Mail
end Conest

import Conest.Journal.Mutations

/-!
# A message looks the same in every order of its mutations

Replicas receive the edits, deletions and reactions of a message in any order and more than once.
`reduce` keeps of each kind the newest by `compare`, whose last key is the event's identifier, and the
identifier is the digest of everything but the signature. So two lists of the same events reduce to
the same body and the same reactions, and to the same edit and deletion, up to how their signatures
are spelled (`projections_converge`). The spelling does depend on the order: of two events that differ
in nothing else the first one stays (`Sample.signatures_depend_on_order`).
-/

namespace Conest
namespace Journal

open Lib Conest.Group List Option

variable {o o' : Option GroupHistoryEvent}

/-- An event without its signature. -/
def unsigned (event : GroupHistoryEvent) : DartString × List (DartString × Json) :=
  (event.eventId, event.body)

/-- What a message looks like, its edit and its deletion without their signatures. -/
structure Look where
  original : GroupHistoryEvent
  body : DartString
  reactions : FMap DartString (Finset DartString)
  edit : Option (DartString × List (DartString × Json))
  deletion : Option (DartString × List (DartString × Json))

def GroupMessageProjection.look (p : GroupMessageProjection) : Look :=
  ⟨p.original, p.body, p.reactions, p.edit.map unsigned, p.deletion.map unsigned⟩

/-! ### Events that tie -/

section Unsigned

variable {a b : GroupHistoryEvent}

section

variable (h : unsigned a = unsigned b)

include h

theorem body_getElem?_eq (i : ℕ) : a.body[i]? = b.body[i]? :=
  congrArg (fun p : DartString × List (DartString × Json) => p.2[i]?) h

theorem payload_eq_of_unsigned : a.payload = b.payload := by
  have hentry : some (DartString.ofString "payload", Json.obj a.payload) =
      some (DartString.ofString "payload", Json.obj b.payload) := body_getElem?_eq h 10
  exact Json.obj.inj (congrArg Prod.snd (some.inj hentry))

theorem authorDeviceId_eq_of_unsigned : a.authorDeviceId = b.authorDeviceId := by
  have hentry : some (DartString.ofString "authorDeviceId", Json.str a.authorDeviceId) =
      some (DartString.ofString "authorDeviceId", Json.str b.authorDeviceId) :=
    body_getElem?_eq h 3
  exact Json.str.inj (congrArg Prod.snd (some.inj hentry))

theorem stringAt_eq_of_unsigned (key : String) : a.stringAt key = b.stringAt key := by
  unfold GroupHistoryEvent.stringAt GroupHistoryEvent.payloadAt
  rw [payload_eq_of_unsigned h]

theorem shownBy_eq_of_unsigned : shownBy a = shownBy b := by
  unfold shownBy activeOf emojiOf GroupHistoryEvent.payloadAt
  rw [stringAt_eq_of_unsigned h, payload_eq_of_unsigned h, authorDeviceId_eq_of_unsigned h]

end

/-- **Events that tie differ in their signatures alone**, if the digest tells what was signed. -/
theorem unsigned_eq_of_tie {codec : Codec} {l : List GroupHistoryEvent}
    (hdecoded : ∀ e ∈ l, ∃ encoded, codec.decode encoded = .ok e)
    (hcollision : ∀ e ∈ l, ∀ e' ∈ l,
      codec.sha256 (codec.signingBytes e) = codec.sha256 (codec.signingBytes e') →
        e.body = e'.body)
    (ha : a ∈ l) (hb : b ∈ l) (htie : compareKey a = compareKey b) : unsigned a = unsigned b := by
  -- the last key of the order
  have hid : a.eventId = b.eventId := congrArg
    (fun key : ℕ ×ₗ DartString ×ₗ ℕ ×ₗ DartString => (ofLex (ofLex (ofLex key).2).2).2) htie
  obtain ⟨encoded, hencoded⟩ := hdecoded a ha
  obtain ⟨encoded', hencoded'⟩ := hdecoded b hb
  have hdigests : codec.sha256 (codec.signingBytes a) = codec.sha256 (codec.signingBytes b) := by
    calc codec.sha256 (codec.signingBytes a)
        = a.eventId := Codec.digest_of_decode hencoded
      _ = b.eventId := hid
      _ = codec.sha256 (codec.signingBytes b) := (Codec.digest_of_decode hencoded').symm
  exact Prod.ext hid (hcollision a ha b hb hdigests)

end Unsigned

/-! ### Two lists of the same events -/

section Converge

variable {text : TextFunctions} {original : GroupHistoryEvent} {l l' : List GroupHistoryEvent}

theorem top_map_eq {p : GroupHistoryEvent → Prop} {β : Type} {f : GroupHistoryEvent → β}
    (h : Indexes.Top p compareKey l o) (h' : Indexes.Top p compareKey l' o')
    (hmem : ∀ e, e ∈ l ↔ e ∈ l')
    (htie : ∀ a ∈ l, ∀ b ∈ l, compareKey a = compareKey b → f a = f b) : o.map f = o'.map f := by
  have hrank := h.rank_eq h' hmem
  cases o with
  | none =>
    cases o' with
    | none => rfl
    | some b => cases hrank
  | some a =>
  cases o' with
  | none => cases hrank
  | some b =>
    have hb : b ∈ l := (hmem b).mpr (h'.newest b rfl).1
    exact congrArg some (htie a (h.newest a rfl).1 b hb (some.inj hrank))

theorem bind_eq_of_map_eq {β : Type} {f : GroupHistoryEvent → Option β} (h : o.map f = o'.map f) :
    o.bind f = o'.bind f := by
  cases o with
  | none => cases o' with
    | none => rfl
    | some b => cases h
  | some a => cases o' with
    | none => cases h
    | some b => exact some.inj h

/-- **Order and repetition do not show**, where ties differ in their signatures alone. -/
theorem look_eq_of_mem_iff (hmem : ∀ e, e ∈ l ↔ e ∈ l')
    (htie : ∀ a ∈ l, ∀ b ∈ l, compareKey a = compareKey b → unsigned a = unsigned b) :
    (reduce text original l).map GroupMessageProjection.look =
      (reduce text original l').map GroupMessageProjection.look := by
  have hl := Reduction.describes_foldl text original l
  have hl' := Reduction.describes_foldl text original l'
  unfold reduce
  split
  · rfl
  split
  · rfl
  next body _ =>
  generalize l.foldl (Reduction.step text original) Reduction.empty = r at hl ⊢
  generalize l'.foldl (Reduction.step text original) Reduction.empty = r' at hl' ⊢
  have hedit : r.edit.map unsigned = r'.edit.map unsigned :=
    top_map_eq hl.edit hl'.edit hmem htie
  have hdeletion : r.deletion.map unsigned = r'.deletion.map unsigned :=
    top_map_eq hl.deletion hl'.deletion hmem htie
  have hreactions : reactionsOf r.latestReactions = reactionsOf r'.latestReactions := by
    refine (reactionsOf_eq_iff hl.ownKeys hl'.ownKeys).mpr fun key => ?_
    apply bind_eq_of_map_eq
    refine top_map_eq (hl.reactions.top key) (hl'.reactions.top key) hmem ?_
    exact fun a ha b hb hkeys => shownBy_eq_of_unsigned (htie a ha b hb hkeys)
  -- the body is that of the edit, unless the message is deleted
  have hdeleted : r.deletion.isSome = r'.deletion.isSome := by
    rw [← isSome_map, hdeletion, isSome_map]
  have hbodies : (r.edit.bind fun event => event.stringAt "body") =
      r'.edit.bind fun event => event.stringAt "body" := by
    apply bind_eq_of_map_eq
    refine top_map_eq hl.edit hl'.edit hmem ?_
    exact fun a ha b hb hkeys => stringAt_eq_of_unsigned (htie a ha b hb hkeys) "body"
  unfold GroupMessageProjection.look
  simp[map_some, hedit, hdeletion, hreactions, hdeleted, hbodies]

/-- **Deletion is terminal**: whatever else arrives, the message stays deleted and empty. -/
theorem deleted_of_mem {deletion : GroupHistoryEvent} (hmem : deletion ∈ l)
    (hdeletes : Deletes text original deletion) {p : GroupMessageProjection}
    (hp : reduce text original l = some p) : p.deletion.isSome ∧ p.body = [] := by
  have hl := Reduction.describes_foldl text original l
  have hsome := hl.deletion.isSome deletion hmem hdeletes
  unfold reduce at hp
  split at hp
  · cases hp
  split at hp
  · cases hp
  obtain rfl := some.inj hp
  exact ⟨hsome, if_pos hsome⟩

end Converge

/-- **Projections converge, and deletion is terminal.** Two lists of the same decoded events, in any
order and with any repetitions, give a message the same look. A list with an eligible deletion leaves
the message deleted and without a body, whatever else it contains. -/
theorem projections_converge (text : TextFunctions) (codec : Codec)
    (original : GroupHistoryEvent) :
    (∀ l l' : List GroupHistoryEvent, (∀ e, e ∈ l ↔ e ∈ l') →
      (∀ e ∈ l, ∃ encoded, codec.decode encoded = .ok e) →
      (∀ e ∈ l, ∀ e' ∈ l,
        codec.sha256 (codec.signingBytes e) = codec.sha256 (codec.signingBytes e') →
          e.body = e'.body) →
      (reduce text original l).map GroupMessageProjection.look =
        (reduce text original l').map GroupMessageProjection.look) ∧
    ∀ l l' : List GroupHistoryEvent, l ⊆ l' → ∀ deletion ∈ l, Deletes text original deletion →
      ∀ p, reduce text original l' = some p → p.deletion.isSome ∧ p.body = [] := by
  constructor
  · intro l l' hmem hdecoded hcollision
    refine look_eq_of_mem_iff hmem fun a ha b hb htie => ?_
    exact unsigned_eq_of_tie hdecoded hcollision ha hb htie
  · intro l l' hsub deletion hmem hdeletes p hp
    exact deleted_of_mem (hsub hmem) hdeletes hp

namespace Sample

open Group.Sample

def signedEdit (first : Fin 65536)
    (hlength : ((first :: List.replicate 85 65 ++ [61, 61] : DartString).base64Decode.map
      List.length) = some 64) : GroupHistoryEvent :=
  { edits with
    signatureBase64 := first :: List.replicate 85 65 ++ [61, 61]
    signature_length := hlength }

def plain : GroupHistoryEvent := signedEdit 43 (by decide)

def urlSafe : GroupHistoryEvent := signedEdit 45 (by decide)

def twoSpellings : Codec :=
  { codec [greeting, plain] with
    jsonDecode := fun bytes =>
      if bytes = [0] then .ok urlSafe.canonicalJson
      else (codec [greeting, plain]).jsonDecode bytes }

/-- **The signature of the edit depends on the order.** Both events are accepted, they have one
identifier, and their signatures are the same bytes. -/
theorem signatures_depend_on_order :
    twoSpellings.decode [5] = .ok plain ∧ twoSpellings.decode [0] = .ok urlSafe ∧
      plain.eventId = urlSafe.eventId ∧
      plain.signatureBase64.base64Decode = urlSafe.signatureBase64.base64Decode ∧
      [plain, urlSafe].Perm [urlSafe, plain] ∧
      (reduce editing.text greeting [plain, urlSafe]).map GroupMessageProjection.edit =
        some (some plain) ∧
      (reduce editing.text greeting [urlSafe, plain]).map GroupMessageProjection.edit =
        some (some urlSafe) ∧ plain ≠ urlSafe := by
  refine ⟨by decide, by decide, rfl, by decide, List.Perm.swap _ _ _, ?_, ?_, by decide⟩
  · decide +kernel
  · decide +kernel

end Sample

end Journal
end Conest

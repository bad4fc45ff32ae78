import Conest.Journal.Index

/-!
# What a message looks like after its mutations

`reduce` folds edits, deletions and reactions into the message that they target. It takes any
events, keeps those that may change the message (`canMutate`, `canReact`), and of these the newest
edit, the newest deletion and the newest reaction under each key. What it returns depends only on
those (`Describes`), so two lists of events give a message the same look if and only if they
have the same newest edit and deletion and their newest reactions show the same
(`reduce_eq_iff`).
-/

namespace Conest
namespace Journal

open Lib Conest.Group List Option

variable (text : TextFunctions)

/-- What `GroupHistoryEvent.compare` compares, in its order. -/
def compareKey (event : GroupHistoryEvent) : ℕ ×ₗ DartString ×ₗ ℕ ×ₗ DartString :=
  toLex (event.lamport, toLex (event.authorDeviceId, toLex (event.sequence, event.eventId)))

/-! ### The reducer -/

/-- Whether an event may edit or delete a message: it is by the same author, and later. -/
def canMutate (original event : GroupHistoryEvent) : Bool :=
  decide (original.kind = .message) && isMutation text event &&
    decide (event.stringAt "targetEventId" = some original.eventId) &&
    decide (event.groupId = original.groupId) &&
    decide (event.authorAccountId = original.authorAccountId) &&
    decide (event.authorDeviceId = original.authorDeviceId) &&
    decide (event.signingPublicKeyBase64 = original.signingPublicKeyBase64) &&
    decide (event.sequence > original.sequence) && decide (event.lamport > original.lamport)

/-- Whether an event may react to a message. -/
def canReact (original event : GroupHistoryEvent) : Bool :=
  decide (original.kind = .message) && decide (event.kind = .reaction) &&
    decide (event.stringAt "targetEventId" = some original.eventId) &&
    decide (event.groupId = original.groupId) && decide (event.sequence > 0) &&
    decide (event.lamport > original.lamport)

/-- The emoji of a reaction. -/
def emojiOf (event : GroupHistoryEvent) : DartString := (event.stringAt "emoji").getD []

/-- Whether a reaction is switched on. -/
def activeOf (event : GroupHistoryEvent) : Bool :=
  decide (event.payloadAt (DartString.ofString "active") = some (.bool true))

/-- The key under which reactions replace each other: the device and the emoji with a null
character between them. -/
def reactionKey (event : GroupHistoryEvent) : DartString :=
  event.authorDeviceId ++ [0] ++ emojiOf event

/-- What the reducer has seen. -/
structure Reduction where
  edit : Option GroupHistoryEvent
  deletion : Option GroupHistoryEvent
  latestReactions : FMap DartString GroupHistoryEvent

namespace Reduction

def empty : Reduction := ⟨none, none, FMap.empty⟩

/-- Whether `event` comes after what is there, if anything is. -/
def isLater (event : GroupHistoryEvent) (previous : Option GroupHistoryEvent) : Bool :=
  previous.all fun p => decide (compareKey p < compareKey event)

/-- One event of the loop. -/
def step (original : GroupHistoryEvent) (r : Reduction) (event : GroupHistoryEvent) : Reduction :=
  if event.kind = .reaction then
    if !isMutation text event || !canReact original event then r
    else if isLater event (r.latestReactions.get (reactionKey event)) then
      { r with latestReactions := r.latestReactions.insert (reactionKey event) event }
    else r
  else if !canMutate text original event then r
  else if event.kind = .deletion then
    if isLater event r.deletion then { r with deletion := some event } else r
  else if isLater event r.edit then { r with edit := some event }
  else r

end Reduction

/-- Add the user of a reaction to those of its emoji, or take the user away. -/
def applyReaction (reactions : FMap DartString (Finset DartString)) (event : GroupHistoryEvent) :
    FMap DartString (Finset DartString) :=
  let users := (reactions.get (emojiOf event)).getD ∅
  reactions.insert (emojiOf event)
    (if activeOf event then insert event.authorDeviceId users
    else users.erase event.authorDeviceId)

/-- The users of each emoji, from the latest reactions. The source goes through these in the order
of insertion, which does not show in the result. -/
def reactionsOf (latest : FMap DartString GroupHistoryEvent) :
    FMap DartString (Finset DartString) :=
  (((latest.keys.sort (· ≤ ·)).filterMap latest.get).foldl applyReaction FMap.empty).retain
    fun _ users => decide (users ≠ ∅)

/-- A message as it is shown. -/
structure GroupMessageProjection where
  original : GroupHistoryEvent
  body : DartString
  reactions : FMap DartString (Finset DartString)
  edit : Option GroupHistoryEvent
  deletion : Option GroupHistoryEvent

/-- The message after the events that change it; `none` if it is not a message with a body. -/
def reduce (original : GroupHistoryEvent) (mutations : List GroupHistoryEvent) :
    Option GroupMessageProjection :=
  if original.kind ≠ .message then none
  else
    match original.stringAt "body" with
    | none => none
    | some body =>
      let r := mutations.foldl (Reduction.step text original) Reduction.empty
      some {
        original := original
        reactions := reactionsOf r.latestReactions
        -- deletion is terminal, whatever was edited
        body :=
          if r.deletion.isSome then []
          else ((r.edit.bind fun event => event.stringAt "body").getD body)
        edit := r.edit
        deletion := r.deletion }

/-! ### What the reducer keeps -/

/-- The event edits the message. -/
def Edits (original event : GroupHistoryEvent) : Prop :=
  canMutate text original event = true ∧ event.kind = .edit

/-- The event deletes the message. -/
def Deletes (original event : GroupHistoryEvent) : Prop :=
  canMutate text original event = true ∧ event.kind = .deletion

instance (original : GroupHistoryEvent) : DecidablePred (Edits text original) :=
  fun _ => inferInstanceAs (Decidable (_ ∧ _))

instance (original : GroupHistoryEvent) : DecidablePred (Deletes text original) :=
  fun _ => inferInstanceAs (Decidable (_ ∧ _))

/-- The key under which an event competes as a reaction to the message. -/
def reactionKeyOf (original event : GroupHistoryEvent) : Option DartString :=
  if isMutation text event && canReact original event then some (reactionKey event) else none

variable {text} {original : GroupHistoryEvent}

section

variable {event : GroupHistoryEvent}

theorem kind_of_isMutation (h : isMutation text event = true) :
    event.kind = .edit ∨ event.kind = .deletion ∨ event.kind = .reaction := by
  unfold isMutation at h
  dsimp only at h
  split at h
  · cases h
  next hkind =>
  cases hk : event.kind <;> simp_all

theorem isMutation_of_canMutate (h : canMutate text original event = true) :
    isMutation text event = true := by
  unfold canMutate at h
  simp only [Bool.and_eq_true] at h
  exact h.1.1.1.1.1.1.1.2

theorem kind_of_canReact (h : canReact original event = true) : event.kind = .reaction := by
  unfold canReact at h
  simp only [Bool.and_eq_true, decide_eq_true_eq] at h
  exact h.1.1.1.1.2

end

namespace Reduction

/-- **One event of the loop**: each of the three parts takes the event if it is newer. -/
theorem step_eq (r : Reduction) (event : GroupHistoryEvent) :
    step text original r event =
      { edit := Indexes.addTop (Edits text original) compareKey r.edit event
        deletion := Indexes.addTop (Deletes text original) compareKey r.deletion event
        latestReactions :=
          Indexes.addBest (reactionKeyOf text original) compareKey event r.latestReactions } := by
  unfold step Indexes.addTop Indexes.addBest reactionKeyOf isLater
  by_cases hreaction : event.kind = .reaction
  · -- a reaction edits and deletes nothing
    have hedit : ¬ Edits text original event := fun h => by simp [h.2] at hreaction
    have hdeletion : ¬ Deletes text original event := fun h => by simp [h.2] at hreaction
    rw [if_pos hreaction, if_neg hedit, if_neg hdeletion]
    cases hmay : isMutation text event && canReact original event with
    | true =>
      rw [← Bool.not_and, hmay, Bool.not_true, if_neg Bool.false_ne_true, if_pos rfl]
      dsimp only
      split <;> rfl
    | false => rw [← Bool.not_and, hmay, Bool.not_false, if_pos rfl, if_neg Bool.false_ne_true]
  · have hkey : (isMutation text event && canReact original event) = false := by
      rw [Bool.and_eq_false_iff, or_iff_not_imp_left]
      intro _
      by_contra hreact
      exact hreaction (kind_of_canReact (Bool.not_eq_false _ |>.mp hreact))
    rw [if_neg hreaction, hkey, if_neg Bool.false_ne_true]
    cases hmutate : canMutate text original event with
    | false =>
      have hedit : ¬ Edits text original event := fun h => by simp [h.1] at hmutate
      have hdeletion : ¬ Deletes text original event := fun h => by simp [h.1] at hmutate
      rw [Bool.not_false, if_pos rfl, if_neg hedit, if_neg hdeletion]
    | true =>
    rw [Bool.not_true, if_neg Bool.false_ne_true]
    rcases kind_of_isMutation (isMutation_of_canMutate hmutate) with hkind | hkind | hkind
    · have hnot : event.kind ≠ .deletion := fun h => by simp [hkind] at h
      have hedit : Edits text original event := ⟨hmutate, hkind⟩
      have hdeletion : ¬ Deletes text original event := fun h => hnot h.2
      rw [if_neg hnot]
      split <;> rfl
    · have hnot : event.kind ≠ .edit := fun h => by simp [hkind] at h
      have hedit : ¬ Edits text original event := fun h => hnot h.2
      have hdeletion : Deletes text original event := ⟨hmutate, hkind⟩
      rw [if_pos hkind]
      split <;> rfl
    · exact absurd hkind hreaction

/-- What the loop has after the events `l`. -/
structure Describes (text : TextFunctions) (original : GroupHistoryEvent)
    (l : List GroupHistoryEvent) (r : Reduction) : Prop where
  edit : Indexes.Top (Edits text original) compareKey l r.edit
  deletion : Indexes.Top (Deletes text original) compareKey l r.deletion
  reactions : Indexes.Best (reactionKeyOf text original) compareKey l r.latestReactions

theorem describes_foldl (text : TextFunctions) (original : GroupHistoryEvent)
    (l : List GroupHistoryEvent) :
    Describes text original l (l.foldl (step text original) empty) := by
  induction l using reverseRecOn with
  | nil => exact ⟨Indexes.Top.empty, Indexes.Top.empty, Indexes.Best.empty⟩
  | append_singleton l event ih =>
    rw [foldl_append, foldl_cons, step_eq]
    exact ⟨ih.edit.add event, ih.deletion.add event, ih.reactions.add event⟩

end Reduction

/-! ### What the reactions show -/

/-- The emoji and the user that a reaction shows, if it is switched on. -/
def shownBy (event : GroupHistoryEvent) : Option (DartString × DartString) :=
  if activeOf event then some (emojiOf event, event.authorDeviceId) else none

/-- Every reaction is under its own key. -/
def OwnKeys (latest : FMap DartString GroupHistoryEvent) : Prop :=
  ∀ key event, latest.get key = some event → reactionKey event = key

theorem Reduction.Describes.ownKeys {l : List GroupHistoryEvent} {r : Reduction}
    (h : Reduction.Describes text original l r) : OwnKeys r.latestReactions := by
  intro key event hget
  obtain ⟨-, hkey, -⟩ := h.reactions.best key event hget
  unfold reactionKeyOf at hkey
  split at hkey
  · exact some.inj hkey
  · cases hkey

theorem reactionKey_eq {a b : GroupHistoryEvent} (hemoji : emojiOf a = emojiOf b)
    (hdevice : a.authorDeviceId = b.authorDeviceId) : reactionKey a = reactionKey b := by
  unfold reactionKey
  rw [hemoji, hdevice]

theorem mem_applyReaction (reactions : FMap DartString (Finset DartString))
    (event : GroupHistoryEvent) (emoji user : DartString) :
    user ∈ ((applyReaction reactions event).get emoji).getD ∅ ↔
      shownBy event = some (emoji, user) ∨
        user ∈ (reactions.get emoji).getD ∅ ∧
          (emojiOf event, event.authorDeviceId) ≠ (emoji, user) := by
  unfold applyReaction shownBy
  rw [FMap.get_insert, Ne, Prod.mk.injEq]
  by_cases hemoji : emoji = emojiOf event
  · subst hemoji
    rw [if_pos rfl, getD_some]
    cases activeOf event with
    | true =>
      rw [if_pos rfl, if_pos rfl, Finset.mem_insert, some.injEq, Prod.mk.injEq]
      simp only [true_and]
      constructor
      · rintro (rfl | hmem)
        · exact .inl rfl
        · by_cases hd : event.authorDeviceId = user
          · exact .inl hd
          · exact .inr ⟨hmem, hd⟩
      · rintro (rfl | ⟨hmem, -⟩)
        · exact .inl rfl
        · exact .inr hmem
    | false =>
      rw [if_neg Bool.false_ne_true, if_neg Bool.false_ne_true, Finset.mem_erase]
      simp only [true_and, reduceCtorEq, false_or]
      rw [and_comm, ne_comm]
  · rw [if_neg hemoji]
    have hne : ¬ emojiOf event = emoji := fun h => hemoji h.symm
    cases activeOf event <;> simp [hne]

theorem mem_foldl_applyReaction {events : List GroupHistoryEvent}
    (hkeys : events.Pairwise fun a b => reactionKey a ≠ reactionKey b) (emoji user : DartString) :
    user ∈ ((events.foldl applyReaction FMap.empty).get emoji).getD ∅ ↔
      ∃ event ∈ events, shownBy event = some (emoji, user) := by
  induction events using reverseRecOn with
  | nil => simp
  | append_singleton events event ih =>
  rw [pairwise_append] at hkeys
  rw [foldl_append, foldl_cons, foldl_nil, mem_applyReaction, ih hkeys.1]
  constructor
  · rintro (hshown | ⟨⟨e, he, hshown⟩, -⟩)
    · exact ⟨event, mem_append_right _ (mem_singleton_self event), hshown⟩
    · exact ⟨e, mem_append_left _ he, hshown⟩
  rintro ⟨e, he, hshown⟩
  rcases mem_append.mp he with he | he
  · refine .inr ⟨⟨e, he, hshown⟩, fun hpair => ?_⟩
    -- an earlier reaction of the same device with the same emoji has the same key
    rw [Prod.mk.injEq] at hpair
    unfold shownBy at hshown
    split at hshown
    · rw [some.injEq, Prod.mk.injEq] at hshown
      refine hkeys.2.2 e he event (mem_singleton_self event) ?_
      exact reactionKey_eq (hshown.1.trans hpair.1.symm) (hshown.2.trans hpair.2.symm)
    · cases hshown
  · rw [mem_singleton.mp he] at hshown
    exact .inl hshown

section

variable {latest : FMap DartString GroupHistoryEvent}

theorem mem_reactionsOf (hown : OwnKeys latest) (emoji user : DartString) :
    user ∈ ((reactionsOf latest).get emoji).getD ∅ ↔
      ∃ key event, latest.get key = some event ∧ shownBy event = some (emoji, user) := by
  have hkeys : ((latest.keys.sort (· ≤ ·)).filterMap latest.get).Pairwise
      fun a b => reactionKey a ≠ reactionKey b := by
    rw [pairwise_filterMap]
    refine (latest.keys.sort_nodup (· ≤ ·)).imp fun hne a ha b hb hsame => hne ?_
    rw [← hown _ a ha, ← hown _ b hb, hsame]
  have hretained : ((reactionsOf latest).get emoji).getD ∅ =
      ((((latest.keys.sort (· ≤ ·)).filterMap latest.get).foldl applyReaction FMap.empty).get
        emoji).getD ∅ := by
    unfold reactionsOf
    rw [FMap.get_retain]
    cases (((latest.keys.sort (· ≤ ·)).filterMap latest.get).foldl applyReaction
      FMap.empty).get emoji with
    | none => rfl
    | some users =>
      by_cases hempty : users = ∅
      · simp [hempty, Option.filter]
      · simp [hempty, Option.filter]
  rw [hretained, mem_foldl_applyReaction hkeys]
  constructor
  · rintro ⟨event, hevent, hshown⟩
    obtain ⟨key, -, hget⟩ := mem_filterMap.mp hevent
    exact ⟨key, event, hget, hshown⟩
  · rintro ⟨key, event, hget, hshown⟩
    refine ⟨event, mem_filterMap.mpr ⟨key, ?_, hget⟩, hshown⟩
    rw [Finset.mem_sort, FMap.mem_keys_iff]
    exact ⟨event, hget⟩

theorem nonempty_reactionsOf {emoji : DartString} {users : Finset DartString}
    (hget : (reactionsOf latest).get emoji = some users) : users ≠ ∅ := by
  unfold reactionsOf at hget
  rw [FMap.get_retain, filter_eq_some_iff] at hget
  exact of_decide_eq_true hget.2

end

/-- **Reactions look the same if and only if under each key they show the same.** -/
theorem reactionsOf_eq_iff {latest latest' : FMap DartString GroupHistoryEvent}
    (hown : OwnKeys latest) (hown' : OwnKeys latest') :
    reactionsOf latest = reactionsOf latest' ↔
      ∀ key, (latest.get key).bind shownBy = (latest'.get key).bind shownBy := by
  -- a pair is shown only under the key of its device and emoji
  have hplace : ∀ {m : FMap DartString GroupHistoryEvent}, OwnKeys m → ∀ key emoji user,
      (m.get key).bind shownBy = some (emoji, user) ↔
        user ++ [0] ++ emoji = key ∧
          ∃ key event, m.get key = some event ∧ shownBy event = some (emoji, user) := by
    intro m hm key emoji user
    have hkey : ∀ {event : GroupHistoryEvent}, shownBy event = some (emoji, user) →
        reactionKey event = user ++ [0] ++ emoji := by
      intro event hshown
      unfold shownBy at hshown
      split at hshown
      · rw [some.injEq, Prod.mk.injEq] at hshown
        unfold reactionKey
        rw [hshown.1, hshown.2]
      · cases hshown
    rw [bind_eq_some_iff]
    constructor
    · rintro ⟨event, hget, hshown⟩
      exact ⟨by rw [← hkey hshown, hm key event hget], key, event, hget, hshown⟩
    · rintro ⟨rfl, key, event, hget, hshown⟩
      refine ⟨event, ?_, hshown⟩
      rw [← hkey hshown, hm key event hget]
      exact hget
  constructor
  · intro heq key
    ext ⟨emoji, user⟩
    rw [hplace hown, hplace hown', ← mem_reactionsOf hown, ← mem_reactionsOf hown', heq]
  intro hall
  have hsame : ∀ emoji user, user ∈ ((reactionsOf latest).get emoji).getD ∅ ↔
      user ∈ ((reactionsOf latest').get emoji).getD ∅ := by
    intro emoji user
    have hiff := (hplace hown (user ++ [0] ++ emoji) emoji user).symm
    rw [hall, hplace hown'] at hiff
    simp only [true_and] at hiff
    rw [mem_reactionsOf hown, mem_reactionsOf hown', hiff]
  ext1 emoji
  have husers : ((reactionsOf latest).get emoji).getD ∅ =
      ((reactionsOf latest').get emoji).getD ∅ := Finset.ext (hsame emoji)
  cases hget : (reactionsOf latest).get emoji with
  | none =>
    cases hget' : (reactionsOf latest').get emoji with
    | none => rfl
    | some users =>
      rw [hget, hget'] at husers
      exact absurd husers.symm (nonempty_reactionsOf hget')
  | some users =>
  cases hget' : (reactionsOf latest').get emoji with
  | none =>
    rw [hget, hget'] at husers
    exact absurd husers (nonempty_reactionsOf hget)
  | some users' =>
    rw [hget, hget'] at husers
    exact congrArg some husers

/-! ### When two lists of events give a message one look -/

/-- The newest reaction under a key shows an emoji of a user. -/
def Shows (text : TextFunctions) (original : GroupHistoryEvent) (l : List GroupHistoryEvent)
    (key : DartString) (pair : DartString × DartString) : Prop :=
  ∃ event, Indexes.Newest (fun e => reactionKeyOf text original e = some key) compareKey l event ∧
    shownBy event = some pair

/-- Distinct events of the list are at distinct places of the order. -/
def Separated (l : List GroupHistoryEvent) : Prop :=
  ∀ a ∈ l, ∀ b ∈ l, compareKey a = compareKey b → a = b

theorem Separated.subset {l l' : List GroupHistoryEvent} (h : Separated l) (hsub : l' ⊆ l) :
    Separated l' :=
  fun a ha b hb => h a (hsub ha) b (hsub hb)

/-- **Part of the events gives a message its look** if and only if the newest edit and the newest
deletion are in the part, and the newest reactions of the part show what those of the whole
show. -/
theorem reduce_eq_iff {l part : List GroupHistoryEvent} (hkind : original.kind = .message)
    (hbody : (original.stringAt "body").isSome) (hsub : part ⊆ l) (hsep : Separated l) :
    reduce text original part = reduce text original l ↔
      (∀ event, Indexes.Newest (Edits text original) compareKey l event → event ∈ part) ∧
        (∀ event, Indexes.Newest (Deletes text original) compareKey l event → event ∈ part) ∧
          ∀ key pair, Shows text original l key pair ↔ Shows text original part key pair := by
  have hl := Reduction.describes_foldl text original l
  have hp := Reduction.describes_foldl text original part
  obtain ⟨body, hbody⟩ := isSome_iff_exists.mp hbody
  unfold reduce
  rw [if_neg (not_not_intro hkind), if_neg (not_not_intro hkind), hbody]
  generalize part.foldl (Reduction.step text original) Reduction.empty = r' at hp
  generalize l.foldl (Reduction.step text original) Reduction.empty = r at hl
  have hedit : r'.edit = r.edit ↔ _ := hl.edit.eq_iff_mem hp.edit hsub hsep
  have hdeletion : r'.deletion = r.deletion ↔ _ :=
    hl.deletion.eq_iff_mem hp.deletion hsub hsep
  have hshows : ∀ {l : List GroupHistoryEvent} {r : Reduction},
      Reduction.Describes text original l r → Separated l → ∀ key pair,
        (r.latestReactions.get key).bind shownBy = some pair ↔ Shows text original l key pair := by
    intro l r h hsep key pair
    rw [bind_eq_some_iff]
    exact exists_congr fun event => and_congr_left' ((h.reactions.top key).eq_some_iff hsep)
  have hreactions : reactionsOf r'.latestReactions = reactionsOf r.latestReactions ↔
      ∀ key pair, Shows text original l key pair ↔ Shows text original part key pair := by
    rw [reactionsOf_eq_iff hp.ownKeys hl.ownKeys]
    refine forall_congr' fun key => ?_
    rw [Option.ext_iff]
    refine forall_congr' fun pair => ?_
    rw [hshows hp (hsep.subset hsub), hshows hl hsep]
    exact Iff.comm
  rw [← hedit, ← hdeletion, ← hreactions, some.injEq, GroupMessageProjection.mk.injEq]
  constructor
  · rintro ⟨-, -, hsame, hsame', hsame''⟩
    exact ⟨hsame', hsame'', hsame⟩
  · rintro ⟨hsame, hsame', hsame''⟩
    rw [hsame, hsame']
    exact ⟨rfl, rfl, hsame'', rfl, rfl⟩

end Journal
end Conest

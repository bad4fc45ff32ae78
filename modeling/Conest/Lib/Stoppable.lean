import Mathlib

/-!
# Programs that may stop at any step

A program over a state takes steps, each of which runs, fails or is the last one because the program
is killed before it (`Fate`). What has been done by then stays done. `within` runs a program on a
part of the state, and what it did there stays too.

`Ensures` says what holds when a program gets to its end, and has a rule for each way of making a
program.
-/

namespace Lib

/-- What becomes of a step. -/
inductive Fate where
  | runs
  | fails
  | killed
deriving DecidableEq

/-- How a program ends. -/
inductive Ending (α : Type) where
  | ok (value : α)
  | failed
  | killed
deriving DecidableEq

/-- A program: from the fates of its steps and a state, how it ends, the fates that are left and the
state it leaves. When no fates are left, steps run. -/
def Program (σ α : Type) : Type := List Fate → σ → Ending α × List Fate × σ

namespace Program

variable {σ τ α β : Type}

instance : Monad (Program σ) where
  pure value fates s := (.ok value, fates, s)
  bind m k fates s :=
    match m fates s with
    | (.ok value, rest, s') => k value rest s'
    | (.failed, rest, s') => (.failed, rest, s')
    | (.killed, rest, s') => (.killed, rest, s')

/-- A step that changes the state; none where it cannot. -/
def step (f : σ → Option σ) : Program σ Unit := fun fates s =>
  match fates with
  | .fails :: rest => (.failed, rest, s)
  | .killed :: rest => (.killed, rest, s)
  | _ =>
    match f s with
    | some s' => (.ok (), fates.tail, s')
    | none => (.failed, fates.tail, s)

/-- A step that changes nothing. -/
def attempt : Program σ Unit := step some

def fail : Program σ α := fun fates s => (.failed, fates, s)

/-- A question that is answered with no where it cannot be answered. -/
def test (f : σ → Bool) : Program σ Bool := fun fates s =>
  match fates with
  | .fails :: rest => (.ok false, rest, s)
  | .killed :: rest => (.killed, rest, s)
  | _ => (.ok (f s), fates.tail, s)

/-- What is read of the state. -/
def look (f : σ → α) : Program σ α := fun fates s => (.ok (f s), fates, s)

/-- A program on a part of the state, which has to be there. -/
def within (part : σ → Option τ) (replace : τ → σ → σ) (m : Program τ α) : Program σ α :=
  fun fates s =>
    match part s with
    | none => (.failed, fates, s)
    | some t =>
      let (ending, rest, t') := m fates t
      (ending, rest, replace t' s)

/-- The state that a program leaves, however it ends. -/
def leaves (m : Program σ α) (fates : List Fate) (s : σ) : σ := (m fates s).2.2

/-- Whether it gets to its end. -/
def ends (m : Program σ α) (fates : List Fate) (s : σ) : Bool :=
  match (m fates s).1 with
  | .ok _ => true
  | _ => false

/-! ### What holds at the end -/

/-- From a state with `pre`, what holds when the program gets to its end. -/
def Ensures (pre : σ → Prop) (m : Program σ α) (post : α → σ → Prop) : Prop :=
  ∀ fates s value rest s', pre s → m fates s = (.ok value, rest, s') → post value s'

variable {pre : σ → Prop} {m : Program σ α} {post : α → σ → Prop}

theorem Ensures.of_ends (h : Ensures pre m post) {fates : List Fate} {s : σ} (hs : pre s)
    (hends : m.ends fates s = true) : ∃ value, post value (m.leaves fates s) := by
  unfold ends at hends
  split at hends
  next value hok => exact ⟨value, h fates s value _ _ hs (Prod.ext hok rfl)⟩
  · cases hends

theorem Ensures.weaken {pre' : σ → Prop} {post' : α → σ → Prop} (h : Ensures pre m post)
    (hpre : ∀ s, pre' s → pre s) (hpost : ∀ value s, post value s → post' value s) :
    Ensures pre' m post' := fun fates s value rest s' hs hrun =>
  hpost value s' (h fates s value rest s' (hpre s hs) hrun)

theorem Ensures.of_start (h : ∀ s, pre s → Ensures (fun s' => s' = s) m post) :
    Ensures pre m post := fun fates s value rest s' hs hrun =>
  h s hs fates s value rest s' rfl hrun

theorem Ensures.and {left right : α → σ → Prop} (hleft : Ensures pre m left)
    (hright : Ensures pre m right) :
    Ensures pre m fun value s => left value s ∧ right value s :=
  fun fates s value rest s' hs hrun =>
    ⟨hleft fates s value rest s' hs hrun, hright fates s value rest s' hs hrun⟩

theorem ensures_true : Ensures pre m fun _ _ => True := fun _ _ _ _ _ _ _ => trivial

theorem ensures_pure {value : α} (h : ∀ s, pre s → post value s) :
    Ensures pre (pure value : Program σ α) post := by
  intro fates s _ rest s' hs hrun
  change (Ending.ok value, fates, s) = _ at hrun
  cases hrun
  exact h s hs

theorem Ensures.bind {mid : α → σ → Prop} {k : α → Program σ β} {post : β → σ → Prop}
    (hm : Ensures pre m mid) (hk : ∀ value, Ensures (mid value) (k value) post) :
    Ensures pre (m >>= k) post := by
  intro fates s value rest s' hs hrun
  change (match m fates s with
    | (.ok value, rest, s') => k value rest s'
    | (.failed, rest, s') => (.failed, rest, s')
    | (.killed, rest, s') => (.killed, rest, s')) = _ at hrun
  split at hrun
  · next first left mid' hfirst =>
    exact hk first left mid' value rest s' (hm fates s first left mid' hs hfirst) hrun
  · cases hrun
  · cases hrun

theorem ensures_step {f : σ → Option σ} {post : Unit → σ → Prop}
    (h : ∀ s s', pre s → f s = some s' → post () s') : Ensures pre (step f) post := by
  intro fates s value rest s' hs hrun
  unfold step at hrun
  split at hrun
  · cases hrun
  · cases hrun
  split at hrun
  · next after hafter =>
    cases hrun
    exact h s _ hs hafter
  · cases hrun

theorem ensures_attempt : Ensures pre (attempt : Program σ Unit) fun _ => pre :=
  ensures_step fun _ _ hs heq => Option.some.inj heq ▸ hs

theorem ensures_test {f : σ → Bool} {post : Bool → σ → Prop}
    (hyes : ∀ s, pre s → f s = true → post true s) (hno : ∀ s, pre s → post false s) :
    Ensures pre (test f) post := by
  intro fates s value rest s' hs hrun
  unfold test at hrun
  split at hrun
  · cases hrun
    exact hno s hs
  · cases hrun
  cases hrun
  cases hf : f s with
  | true => exact hyes s hs hf
  | false => exact hno s hs

theorem ensures_fail : Ensures pre (fail : Program σ α) post := by
  intro fates s value rest s' _ hrun
  cases hrun

theorem ensures_asked {f : σ → Bool} : Ensures pre (test f) fun _ => pre :=
  ensures_test (fun _ hs _ => hs) fun _ hs => hs

theorem ensures_when {c : Prop} [Decidable c] {m : Program σ Unit} {k : Unit → Program σ α}
    {mid : σ → Prop} (hm : c → Ensures pre m fun _ => mid) (hskip : ¬c → ∀ s, pre s → mid s)
    (hk : Ensures mid (k ()) post) : Ensures pre (if c then m >>= k else k ()) post := by
  split
  next hc => exact (hm hc).bind fun _ => hk
  next hc => exact hk.weaken (hskip hc) fun _ _ hs => hs

theorem ensures_look {f : σ → α} (h : ∀ s, pre s → post (f s) s) :
    Ensures pre (look f) post := by
  intro fates s value rest s' hs hrun
  change (Ending.ok (f s), fates, s) = _ at hrun
  cases hrun
  exact h s hs

theorem ensures_within {part : σ → Option τ} {replace : τ → σ → σ} {m : Program τ α}
    {post : α → σ → Prop} (inner : α → τ → Prop)
    (h : ∀ s t, pre s → part s = some t →
      Ensures (fun t' => t' = t) m inner ∧
        ∀ value t', inner value t' → post value (replace t' s)) :
    Ensures pre (within part replace m) post := by
  intro fates s value rest s' hs hrun
  unfold within at hrun
  split at hrun
  · cases hrun
  next t ht =>
  obtain ⟨hm, hpost⟩ := h s t hs ht
  obtain ⟨ending, left, t', hinner⟩ : ∃ ending left t', m fates t = (ending, left, t') :=
    ⟨_, _, _, rfl⟩
  rw [hinner] at hrun
  cases hrun
  exact hpost value t' (hm fates t value _ _ rfl hinner)

theorem ensures_forM {body : α → Program σ Unit} (inv : List α → σ → Prop) :
    ∀ (items : List α), (∀ item rest, item :: rest <:+ items →
      Ensures (inv (item :: rest)) (body item) fun _ s => inv rest s) →
        Ensures (inv items) (items.forM body) fun _ s => inv [] s := by
  intro items
  induction items with
  | nil => exact fun _ => ensures_pure fun s hs => hs
  | cons item items ih =>
    intro h
    refine (h item items List.suffix_rfl).bind fun _ => ?_
    exact ih fun next rest hsuffix => h next rest (hsuffix.trans (List.suffix_cons item items))

end Program
end Lib

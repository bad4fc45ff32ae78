import Conest.Carrier.Accepting

/-!
# Keys and room

Keys are strings put together with a bar between the parts. As long as no sender's name has a bar in
it, a key says whose it is (`keyOf_injective`), and the keys that `makeRoom` counts as a sender's own
are its own (`sender_of_prefix`).

Room is made by dropping one key at most (`roomFor_cases`), and none while the pools have room
(`roomFor_of_lt`).
-/

namespace Conest
namespace Carrier

open Lib List Option

/-! ### Bars -/

/-- A name without a bar. -/
def Plain (name : DartString) : Prop := ∀ unit ∈ bar, unit ∉ name

theorem bar_eq : bar = [124] := by decide

theorem plain_iff {name : DartString} : Plain name ↔ (124 : Fin 65536) ∉ name := by
  unfold Plain
  rw [bar_eq]
  simp

instance (name : DartString) : Decidable (Plain name) :=
  decidable_of_iff ((124 : Fin 65536) ∉ name) plain_iff.symm

theorem plain_append_bar {a b c d : DartString} (ha : Plain a) (hc : Plain c)
    (h : a ++ bar ++ b = c ++ bar ++ d) : a = c ∧ b = d := by
  rw [plain_iff] at ha hc
  rw [bar_eq, append_assoc, append_assoc, singleton_append, singleton_append]
    at h
  induction a generalizing c with
  | nil =>
    cases c with
    | nil =>
      rw [nil_append, nil_append, cons.injEq] at h
      exact ⟨rfl, h.2⟩
    | cons unit c =>
      rw [nil_append, cons_append, cons.injEq] at h
      exact absurd (h.1 ▸ mem_cons_self) hc
  | cons unit a ih =>
  cases c with
  | nil =>
    rw [nil_append, cons_append, cons.injEq] at h
    exact absurd (h.1 ▸ mem_cons_self) ha
  | cons unit' c =>
    rw [cons_append, cons_append, cons.injEq] at h
    obtain ⟨hac, hbd⟩ := ih (fun hmem => ha (mem_cons_of_mem _ hmem))
      (fun hmem => hc (mem_cons_of_mem _ hmem)) h.2
    exact ⟨congrArg₂ cons h.1 hac, hbd⟩

theorem append_bar_plain {a b c d : DartString} (hb : Plain b) (hd : Plain d)
    (h : a ++ bar ++ b = c ++ bar ++ d) : a = c ∧ b = d := by
  have hreverse := congrArg reverse h
  simp only [reverse_append] at hreverse
  have hbar : bar.reverse = bar := by rw [bar_eq]; rfl
  rw [← append_assoc, ← append_assoc] at hreverse
  obtain ⟨hbd, hac⟩ := plain_append_bar
    (by rw [plain_iff] at hb ⊢; rwa [mem_reverse])
    (by rw [plain_iff] at hd ⊢; rwa [mem_reverse]) hreverse
  exact ⟨reverse_inj.mp hac, reverse_inj.mp hbd⟩

theorem plain_digits (count : ℕ) : Plain (digits count) := by
  rw [plain_iff]
  intro hmem
  obtain ⟨c, hc, hunit⟩ := mem_flatMap.mp hmem
  have hdigit : c.isDigit = true := by
    refine Nat.isDigit_of_mem_toDigits (b := 10) (n := count) (by decide) (by decide) ?_
    have hstring : (toString (count : ℤ)).toList = Nat.toDigits 10 count := by
      show (Nat.repr count).toList = _
      exact String.toList_ofList
    rwa [hstring] at hc
  -- digits are the code units 48 to 57
  have hval : c.toNat ≤ 57 := by
    simp only [Char.isDigit, Bool.and_eq_true, decide_eq_true_eq] at hdigit
    exact hdigit.2
  unfold DartString.unitsOf at hunit
  rw [if_pos (by omega), mem_singleton] at hunit
  have hval' := congrArg Fin.val hunit
  rw [Fin.val_ofNat] at hval'
  have hbar : ((124 : Fin 65536) : ℕ) = 124 := rfl
  omega

/-! ### Keys -/

section Keys

variable {config : Config} {sender sender' id id' : DartString} {count count' : ℕ}

theorem keyOf_injective (hsender : Plain sender) (hsender' : Plain sender')
    (hpools : CarrierReassembler.isStranger config sender =
      CarrierReassembler.isStranger config sender')
    (h : keyOf config sender id count = keyOf config sender' id' count') :
    sender = sender' ∧ id = id' := by
  unfold keyOf at h
  rw [← hpools] at h
  split at h
  · have hparts : sender ++ bar ++ (id ++ bar ++ digits count) =
        sender' ++ bar ++ (id' ++ bar ++ digits count') := by
      simpa only [append_assoc] using h
    obtain ⟨hname, hrest⟩ := plain_append_bar hsender hsender' hparts
    exact ⟨hname, (append_bar_plain (plain_digits count) (plain_digits count') hrest).1⟩
  · exact plain_append_bar hsender hsender' h

theorem sender_of_prefix (hsender : Plain sender) (hsender' : Plain sender')
    (hcontact : CarrierReassembler.isStranger config sender' = false)
    (h : (sender ++ bar).isPrefixOf (keyOf config sender' id count') = true) :
    sender = sender' := by
  obtain ⟨rest, hrest⟩ := isPrefixOf_iff_prefix.mp h
  unfold keyOf at hrest
  rw [hcontact] at hrest
  exact (plain_append_bar hsender hsender' hrest).1

end Keys

/-! ### Room -/

namespace CarrierReassembler

variable {config : Config} {sender : DartString} {pool room : LinkedMap DartString PendingEnvelope}

theorem removeFirst_cases {keys : List DartString} (h : removeFirst pool keys = .ok room) :
    ∃ key, keys.head? = some key ∧ room = pool.remove key := by
  cases keys with
  | nil => cases h
  | cons key keys => exact ⟨key, rfl, (Except.ok.inj h).symm⟩

theorem roomFor_cases (h : roomFor config sender pool = .ok room) :
    room = pool ∨ ∃ key, room = pool.remove key := by
  unfold roomFor at h
  split at h
  · unfold makeStrangerRoom at h
    split at h
    · obtain ⟨key, -, hroom⟩ := removeFirst_cases h
      exact .inr ⟨key, hroom⟩
    · exact .inl (Except.ok.inj h).symm
  unfold makeRoom at h
  simp only at h
  split at h
  · obtain ⟨key, -, hroom⟩ := removeFirst_cases h
    exact .inr ⟨key, hroom⟩
  split at h
  · obtain ⟨key, -, hroom⟩ := removeFirst_cases h
    exact .inr ⟨key, hroom⟩
  · exact .inl (Except.ok.inj h).symm

theorem roomFor_of_lt
    (hstranger : isStranger config sender = true → (pool.size : ℤ) < config.maxStrangerPending)
    (hown : isStranger config sender = false →
      ((pool.keys.filter fun existing => (sender ++ bar).isPrefixOf existing).length : ℤ) <
        config.maxPendingPerSender)
    (htotal : isStranger config sender = false → (pool.size : ℤ) < config.maxPending) :
    roomFor config sender pool = .ok pool := by
  unfold roomFor
  cases hs : isStranger config sender with
  | true =>
    rw [if_pos rfl]
    unfold makeStrangerRoom
    rw [if_neg (Int.not_le.mpr (hstranger hs))]
  | false =>
    rw [if_neg Bool.false_ne_true]
    unfold makeRoom
    rw [if_neg (Int.not_le.mpr (hown hs)), if_neg (Int.not_le.mpr (htotal hs))]

theorem mem_keys_remove {key k : DartString} (h : k ∈ (pool.remove key).keys) : k ∈ pool.keys := by
  obtain ⟨entry, hentry, rfl⟩ := mem_map.mp h
  exact mem_map_of_mem (mem_of_mem_filter hentry)

theorem mem_keys_sweep {now : ℤ} {k : DartString} (h : k ∈ (sweep config now pool).keys) :
    k ∈ pool.keys := by
  obtain ⟨entry, hentry, rfl⟩ := mem_map.mp h
  exact mem_map_of_mem (mem_of_mem_filter hentry)

theorem Touched.mem_keys {key k : DartString} (h : Touched pool key room) (hk : k ∈ room.keys) :
    k ∈ pool.keys ∨ k = key := by
  obtain rfl | rfl | ⟨entry, rfl⟩ := h
  · exact .inl hk
  · exact .inl (mem_keys_remove hk)
  · by_cases hmem : key ∈ pool.keys
    · rw [LinkedMap.keys_put_of_mem hmem] at hk
      exact .inl hk
    · rw [LinkedMap.keys_put_of_not_mem hmem, mem_append, mem_singleton] at hk
      exact hk

/-- **No other keys.** The keys after a frame are those from before and that of the frame. -/
theorem mem_keys_acceptPart {r : CarrierReassembler} {now : ℤ} {read : Option Part}
    {s k : DartString} (h : k ∈ ((r.acceptPart config now sender read).1.poolOf config s).keys) :
    k ∈ (r.poolOf config s).keys ∨
      isStranger config sender = isStranger config s ∧ ∃ part, read = some part ∧
        part.count ≠ 1 ∧ k = keyOf config sender part.id part.count := by
  obtain hsame | ⟨part, hread, -, hsingle, found, pool', hfound, htouched, hafter⟩ :=
    acceptPart_cases r now sender read
  · rw [hsame] at h
    exact .inl h
  -- making room and sweeping only drop keys
  have hold : k ∈ pool'.keys → k ∈ (r.poolOf config sender).keys ∨
      k = keyOf config sender part.id part.count := by
    intro hk
    rcases htouched.mem_keys hk with hk | hk
    · refine .inl (@mem_keys_sweep config _ now k ?_)
      obtain rfl | ⟨-, hmade⟩ := hfound
      · exact hk
      · obtain rfl | ⟨key, rfl⟩ := roomFor_cases hmade
        · exact hk
        · exact mem_keys_remove hk
    · exact .inr hk
  rw [hafter] at h
  unfold poolOf at h hold ⊢
  cases hsender : isStranger config sender with
  | true =>
    rw [hsender] at h hold
    cases hs : isStranger config s with
    | true =>
      rw [hs] at h
      rcases hold h with hk | hk
      · exact .inl hk
      · exact .inr ⟨rfl, part, hread, hsingle, hk⟩
    | false =>
      rw [hs] at h
      exact .inl (mem_keys_sweep h)
  | false =>
    rw [hsender] at h hold
    cases hs : isStranger config s with
    | true =>
      rw [hs] at h
      exact .inl h
    | false =>
      rw [hs] at h
      rcases hold h with hk | hk
      · exact .inl hk
      · exact .inr ⟨rfl, part, hread, hsingle, hk⟩

end CarrierReassembler

end Carrier
end Conest

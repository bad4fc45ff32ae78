import Conest.Ratchet.Steps

/-!
# Messages that open a session

A message that opens a session on a one-time key cannot be replayed: the account has dropped the
key. On a fallback key it can, and then only the sessions that are still stored for the peer stand
against it. So such a message is delivered at most once as long as its session does not leave the
store and come back (`delivered_once`); four newer sessions are enough to push it out
(`Sample.opener_delivered_twice`).

The argument is that of the used pickles. A delivered message stays refused by its session, since a
message key is used once.
-/

namespace Conest
namespace Ratchet

open Lib List

section Deliveries

variable {Account Session : Type} {olm : Vodozemac Account Session}
  {sessionOf : RatchetMessage → DartString}

/-- The opening message whose plaintext a call returned. -/
def deliveredOpener : PeerCall → Value Session → Option RatchetMessage
  | .decrypt message _, .plaintext _ _ => if message.opensSession then some message else none
  | _, _ => none

/-- The session of a delivered message refuses it from then on. -/
def deliveries (hconsumes : olm.Consumes sessionOf) : Tracking olm RatchetMessage where
  item := deliveredOpener
  sessionOf := sessionOf
  rel message session := olm.Refuses session message
  item_idle call value hidle := by
    cases call with
    | decrypt message peerIdentityKey => exact absurd hidle id
    | _ => rfl
  rel_turn _ _ _ hrefuses hturn := hrefuses.turn hturn
  stepped view state call opened value x step hwrites hnamed hitem hstep := by
    -- only an opening message is recorded
    have hopener : ∀ {message : RatchetMessage},
        (if message.opensSession then some message else none) = some x →
          message.opensSession = true ∧ message = x := by
      intro message hx
      split at hx
      next hopens => exact ⟨hopens, Option.some.inj hx⟩
      · cases hx
    cases hwrites with
    | @decrypted message identity session next plaintext hmem hnext hputs =>
      obtain ⟨hopens, rfl⟩ := hopener hitem
      cases hstep
      refine ⟨?_, hconsumes.decrypted _ _ _ _ hnext, ?_⟩
      · rw [← hnamed session hmem]
        exact hconsumes.decrypted_session _ _ _ _ hopens hnext
      · intro source hsource hrefuses
        cases hsource
        exact hrefuses session.pickle Relation.ReflTransGen.refl _ hnext
    | @opened message identity account peerIdentityKey updated session plaintext hopen hputs =>
      obtain ⟨-, rfl⟩ := hopener hitem
      cases hstep
      refine ⟨hconsumes.opened_session _ _ _ _ _ _ hopen, hconsumes.opened _ _ _ _ _ _ hopen, ?_⟩
      intro source hsource
      cases hsource
    | keeps hidle =>
      cases call with
      | decrypt message peerIdentityKey => exact absurd hidle id
      | _ => cases hitem
    | encrypted => cases hitem
    | started => cases hitem

/-- The opening messages whose plaintexts were returned in a run, in order. -/
def deliveredOpeners (outputs : List (Option (Output Session))) : List RatchetMessage :=
  outputs.filterMap fun
    | some (.peer _ call (.ok value)) => deliveredOpener call value
    | _ => none

/-- **An opening message is delivered at most once**, in every run, interleaved and with failures,
crashes and replays, in which no session comes back to the store after it was there. -/
theorem delivered_once [DecidableEq Account] (hlaw : olm.Lawful) (hconsumes : olm.Consumes sessionOf)
    (cipher : BulkCipher) (inputs : List Input)
    (honce : OpensOnce olm cipher [] World.initial inputs) :
    (deliveredOpeners ((machine olm cipher).outputs World.initial inputs)).Nodup := by
  have hline : (deliveries hconsumes).Line [World.initial.store] [] (fun _ => []) World.initial
      fun _ => none :=
    ⟨fun _ _ hsession => (nomatch hsession), fun _ _ hsession => (nomatch hsession),
      fun _ hx => nomatch hx⟩
  have hnodup := (deliveries hconsumes).recorded_nodup hlaw cipher Coherent.initial hline honce
    nodup_nil
  exact hnodup

end Deliveries

namespace Sample

def sessionOf (message : RatchetMessage) : DartString := text (message.ciphertext.headD 0)

theorem seen_mono {session later : Session} (h : Relation.ReflTransGen olm.Turn session later)
    {number : UInt8} (hseen : number ∈ session.seen) : number ∈ later.seen := by
  induction h with
  | refl => exact hseen
  | tail _ hturn ih =>
    rcases turn_cases hturn with rfl | ⟨other, rfl⟩
    · exact ih
    · exact mem_cons_of_mem other ih

theorem refuses_of_seen {session : Session} {request : RatchetMessage} {number : UInt8}
    (hnumber : request.ciphertext[3]? = some number) (hseen : number ∈ session.seen) :
    olm.Refuses session request := by
  rintro later hlater ⟨next, plaintext⟩ hdecrypt
  obtain ⟨number', hnew, -, hnumber', -⟩ := decrypt_ok (decryptWith_ok hdecrypt)
  obtain rfl : number = number' := Option.some.inj (hnumber.symm.trans hnumber')
  exact hnew (seen_mono hlater hseen)

theorem inbound_ok {account updated : Account} {identity : DartString} {request : RatchetMessage}
    {session : Session} {plaintext : Bytes}
    (h : olm.inbound account identity request = .ok (updated, session, plaintext)) :
    ∃ id sender key number, request.ciphertext = id :: sender :: key :: number :: plaintext ∧
      session = ⟨id, account.identity, 0, 0, true, [number]⟩ := by
  have hcreate : createInboundSession account identity request.ciphertext =
      .ok (updated, session, plaintext) := by
    unfold Vodozemac.inbound message at h
    split at h
    · exact h
    · split at h
      · cases h
      · split at h <;> cases h
  unfold createInboundSession at hcreate
  split at hcreate
  · next id sender key number rest hciphertext =>
    split at hcreate
    · cases hcreate
      exact ⟨id, sender, key, number, hciphertext, rfl⟩
    · cases hcreate
  · cases hcreate

theorem olm_consumes : olm.Consumes sessionOf where
  decrypted session next request plaintext h := by
    obtain ⟨number, -, rfl, hnumber, -⟩ := decrypt_ok (decryptWith_ok h)
    exact refuses_of_seen hnumber mem_cons_self
  opened account identity request updated session plaintext h := by
    obtain ⟨id, sender, key, number, hciphertext, rfl⟩ := inbound_ok h
    have hnumber : request.ciphertext[3]? = some number := by
      rw [hciphertext]
      rfl
    exact refuses_of_seen hnumber mem_cons_self
  decrypted_session session next request plaintext _ h := by
    obtain ⟨-, -, -, -, hid⟩ := decrypt_ok (decryptWith_ok h)
    show text (request.ciphertext.headD 0) = text session.id
    rw [headD_eq_head?_getD, head?_eq_getElem?, hid]
    rfl
  opened_session account identity request updated session plaintext h := by
    obtain ⟨id, sender, key, number, hciphertext, rfl⟩ := inbound_ok h
    show text (request.ciphertext.headD 0) = text id
    rw [hciphertext]
    rfl

theorem inbound_of_holds (account : Account) (id sender key number : UInt8) (plaintext : Bytes)
    (hholds : account.holds key = true) :
    ∃ updated session, olm.inbound account (text sender)
      ⟨0, id :: sender :: key :: number :: plaintext⟩ = .ok (updated, session, plaintext) ∧
      key ∉ updated.oneTimeKeys := by
  refine ⟨_, _, if_pos ⟨rfl, hholds⟩, ?_⟩
  simp

theorem opener_delivered_twice :
    (olm.Lawful ∧ olm.Consumes sessionOf ∧ ∀ account id sender key number plaintext,
      account.holds key = true → ∃ updated session, olm.inbound account (text sender)
        ⟨0, id :: sender :: key :: number :: plaintext⟩ = .ok (updated, session, plaintext) ∧
        key ∉ updated.oneTimeKeys) ∧
    deliveredOpeners ((machine olm cipher).outputs World.initial replayed) = [opener, opener] :=
  ⟨⟨olm_lawful, olm_consumes, inbound_of_holds⟩, by decide⟩

theorem delivered_once_stored :
    OpensOnce olm cipher [] World.initial
      (publishes ++ receives ++ [.call alice (.decrypt opener (some (text 2)))] ++ goesOn 2 0 ++
        accountGoesOn 1 0) ∧
    (deliveredOpeners ((machine olm cipher).outputs World.initial
      (publishes ++ receives ++ [.call alice (.decrypt opener (some (text 2)))] ++ goesOn 2 0 ++
        accountGoesOn 1 0))).Nodup := by
  have honce : OpensOnce olm cipher [] World.initial
      (publishes ++ receives ++ [.call alice (.decrypt opener (some (text 2)))] ++ goesOn 2 0 ++
        accountGoesOn 1 0) := by decide
  exact ⟨honce, delivered_once olm_lawful olm_consumes cipher _ honce⟩

end Sample

end Ratchet
end Conest

import Conest.Journal.Replica

/-!
# Restarting a replica

What a replica knows of the membership is rebuilt from its journal when the device restarts, and it
comes out as it was, though the records are imported in another order. `Keeps` ties the two: the
membership events of the journal are the records of the history, and the history is what came of
offering these records in some order, parents first. The order of the journal puts parents first as
well, because a parent has a smaller Lamport time, and records that are in one history do not
compete; so both orders end alike (`Keeps.restored`).

Every call keeps the tie (`Inv.step`), whether its write succeeds or fails, with one exception: a
write that fails, and whose rollback fails too, may leave the whole frame in the file. The journal
is poisoned then, and a restart finds an event that was validated and never published; the
membership after the restart has one record more (`unpublished_record_returns`).
-/

namespace Conest
namespace Journal

open Lib Conest.Group Conest.Group.GroupMembershipHistory List Option

variable {d : Device} {w : Worker} {rs : List Stored} {h : GroupMembershipHistory}

/-! ### Offering records that are in one history -/

section Offers

variable {crypto : Crypto} {groupId : DartString} {trustedOwner : GroupMemberProfile}
variable {offers : List GroupMembershipRecord}

theorem along_accepts (hdistinct : offers.Pairwise fun r s => r.id ≠ s.id)
    (hfresh : ∀ r ∈ offers, h.records.get r.id = none)
    (hall : ∀ r ∈ offers, ((machine crypto).run h offers).records.get r.id = some r) :
    (machine crypto).Along (Accepts crypto) h offers := by
  induction offers generalizing h with
  | nil => trivial
  | cons r offers ih =>
  obtain ⟨hhead, htail⟩ := pairwise_cons.mp hdistinct
  rcases importRecord_cases crypto h r with ⟨ha, heq⟩ | ⟨-, heq, -⟩
  · refine ⟨ha, ih htail ?_ fun s hs => hall s (mem_cons_of_mem r hs)⟩
    intro s hs
    change (h.importRecord crypto r).1.records.get s.id = none
    rw [heq, accept_get, if_neg (hhead s hs).symm]
    exact hfresh s (mem_cons_of_mem r hs)
  -- a record that was refused is not in the history at the end
  have hget := hall r mem_cons_self
  rcases get_run_cases offers hget with hold | hmem
  · change (h.importRecord crypto r).1.records.get r.id = some r at hold
    rw [heq, hfresh r mem_cons_self] at hold
    cases hold
  · exact absurd rfl (hhead r hmem)

theorem consistent_of_all
    (hall : ∀ r ∈ offers, (offered crypto groupId trustedOwner offers).records.get r.id = some r) :
    Consistent crypto groupId trustedOwner offers := by
  have hwf := wf_offered crypto groupId trustedOwner offers
  -- whatever is accepted in some order was offered
  have hmem : ∀ r, Acceptable crypto groupId trustedOwner offers r →
      (offered crypto groupId trustedOwner offers).records.get r.id = some r := by
    rintro r ⟨order, horder, hget⟩
    rcases get_run_cases order hget with hnone | hoffered
    · cases hnone
    · exact hall r (horder.perm.mem_iff.mp hoffered)
  refine ⟨?_, ?_, ?_⟩
  · intro r s hr hs hid
    have hgetr := hmem r hr
    rw [hid, hmem s hs] at hgetr
    exact (some.inj hgetr).symm
  · intro r s hr hs hroot hroot'
    have hid := hwf.root_unique r.id s.id r s (hmem r hr) (hmem s hs) hroot hroot'
    have hgetr := hmem r hr
    rw [hid, hmem s hs] at hgetr
    exact (some.inj hgetr).symm
  · intro r s device hr hs hactive hactive'
    exact hwf.same_identity (hmem r hr) (hmem s hs) hactive hactive'

end Offers

/-! ### The journal and the history -/

variable {r : Stored}

/-- **The membership events of the journal are the records of the history.** `events` are those
that calls have brought. -/
structure Keeps (d : Device) (events : List GroupHistoryEvent) (rs : List Stored)
    (h : GroupMembershipHistory) : Prop where
  brought : ∀ r ∈ rs, r.event ∈ events
  recorded : ∀ r ∈ rs, r.event.kind = .membership →
    ∃ record, d.recordOf r.event = .ok record ∧ h.records.get record.id = some record
  stored : ∀ id record, h.records.get id = some record → ∃ r ∈ rs, r.event = record.proof
  order : ∃ offers, h = offered d.env.crypto d.env.groupId d.trustedOwner offers ∧
    ParentsFirst offers ∧ offers.Nodup ∧
    ∀ record, record ∈ offers ↔ h.records.get record.id = some record

variable {events : List GroupHistoryEvent}

theorem Keeps.initial (d : Device) (events : List GroupHistoryEvent) :
    Keeps d events [] d.noMembership where
  brought := by intro r hr; cases hr
  recorded := by intro r hr; cases hr
  stored := by intro id record hget; cases hget
  order := ⟨[], rfl, List.Pairwise.nil, nodup_nil,
    fun record => ⟨fun hmem => (not_mem_nil hmem).elim, fun hget => by cases hget⟩⟩

theorem Keeps.wf (hk : Keeps d events rs h) : h.WF := by
  obtain ⟨offers, rfl, -⟩ := hk.order
  exact wf_offered _ _ _ offers

/-- The record of an entry, if it has one. -/
def Device.recordAt (d : Device) (entry : Entry) : Option GroupMembershipRecord :=
  (d.recordOf entry.event).toOption

theorem toOption_eq_some {α : Type} {x : Except String α} {a : α} :
    x.toOption = some a ↔ x = .ok a := by
  cases x with
  | error e => simp [Except.toOption]
  | ok b => simp [Except.toOption]

theorem recordAt_eq_some {entry : Entry} {record : GroupMembershipRecord} :
    d.recordAt entry = some record ↔ d.recordOf entry.event = .ok record :=
  toOption_eq_some

/-- The records of the membership events, in the order of the journal. -/
def Worker.records (d : Device) (w : Worker) : List GroupMembershipRecord :=
  w.memberships.filterMap d.recordAt

section

variable (hk : Keeps d events rs h) (hw : Holds d.env w rs)

include hk hw

theorem Keeps.record_of_entry {entry : Entry} (hentry : entry ∈ w.memberships) :
    ∃ record, d.recordOf entry.event = .ok record ∧ h.records.get record.id = some record := by
  obtain ⟨hmem, hkind⟩ := hw.mem_memberships.mp hentry
  obtain ⟨r, hr, rfl⟩ := mem_map.mp hmem
  exact hk.recorded r hr hkind

theorem Keeps.mem_records {record : GroupMembershipRecord} :
    record ∈ w.records d ↔ h.records.get record.id = some record := by
  unfold Worker.records
  rw [mem_filterMap]
  constructor
  · rintro ⟨entry, hentry, hrecord⟩
    obtain ⟨record', hrecord', hget⟩ := hk.record_of_entry hw hentry
    rw [recordAt_eq_some, hrecord', Except.ok.injEq] at hrecord
    rw [← hrecord]
    exact hget
  intro hget
  obtain ⟨r, hr, hproof⟩ := hk.stored record.id record hget
  have hentry : r.entry ∈ w.memberships := by
    refine hw.mem_memberships.mpr ⟨mem_map_of_mem hr, ?_⟩
    change r.event.kind = .membership
    rw [hproof]
    exact record.kind
  obtain ⟨record', hrecord, hget'⟩ := hk.record_of_entry hw hentry
  refine ⟨r.entry, hentry, recordAt_eq_some.mpr ?_⟩
  -- the record of the entry has the same identifier, so it is this one
  have hid : record'.id = record.id := by
    change record'.proof.eventId = record.proof.eventId
    rw [recordOf_proof hrecord, ← hproof]
    rfl
  rw [hid, hget, some.injEq] at hget'
  rw [hget']
  exact hrecord

theorem Keeps.records_pairwise :
    (w.records d).Pairwise fun r s => r.id ≠ s.id ∧ s.id ∉ r.parents := by
  unfold Worker.records
  rw [pairwise_filterMap]
  refine hw.memberships_sorted.imp_of_mem ?_
  intro a b ha hb hlt r hr s hs
  rw [recordAt_eq_some] at hr hs
  have hproof := recordOf_proof hr
  have hproof' := recordOf_proof hs
  have hlamport : r.proof.lamport ≤ s.proof.lamport := by
    rw [hproof, hproof']
    exact Prod.Lex.monotone_fst_ofLex (le_of_lt hlt)
  refine ⟨?_, ?_⟩
  · intro hid
    have hsame : a = b := by
      refine hw.describes.eq_of_id (hw.mem_memberships.mp ha).1 (hw.mem_memberships.mp hb).1 ?_
      change a.event.eventId = b.event.eventId
      rw [← hproof, ← hproof']
      exact hid
    rw [hsame] at hlt
    exact lt_irrefl _ hlt
  intro hparent
  have hgetr : h.records.get r.id = some r :=
    (hk.mem_records hw).mp (mem_filterMap.mpr ⟨a, ha, recordAt_eq_some.mpr hr⟩)
  have hgets : h.records.get s.id = some s :=
    (hk.mem_records hw).mp (mem_filterMap.mpr ⟨b, hb, recordAt_eq_some.mpr hs⟩)
  obtain ⟨rp, hgetp, hbefore⟩ := hk.wf.parent_before r.id r hgetr s.id hparent
  rw [hgets, some.injEq] at hgetp
  rw [← hgetp] at hbefore
  omega

end

theorem importAll_eq_run {entries : List Entry}
    (hrecords : ∀ entry ∈ entries, ∃ record, d.recordOf entry.event = .ok record)
    (halong : (machine d.env.crypto).Along (Accepts d.env.crypto) h
      (entries.filterMap d.recordAt)) :
    d.importAll h (entries.map Entry.event) = .ok ((machine d.env.crypto).run h
      (entries.filterMap d.recordAt)) := by
  induction entries generalizing h with
  | nil => rfl
  | cons entry entries ih =>
  obtain ⟨record, hrecord⟩ := hrecords entry mem_cons_self
  rw [filterMap_cons_some (recordAt_eq_some.mpr hrecord)] at halong ⊢
  obtain ⟨ha, hrest⟩ := halong
  have haccepted := importRecord_of_accepts ha
  change (machine d.env.crypto).Along _ (h.importRecord d.env.crypto record).1 _ at hrest
  rw [haccepted] at hrest
  rw [map_cons, Device.importAll, hrecord]
  dsimp only
  rw [haccepted]
  dsimp only
  rw [ih (fun e he => hrecords e (mem_cons_of_mem entry he)) hrest]
  change _ = Except.ok ((machine d.env.crypto).run (h.importRecord d.env.crypto record).1 _)
  rw [haccepted]

theorem Keeps.restored (hk : Keeps d events rs h) (hw : Holds d.env w rs) {file : Bytes}
    (hopen : Worker.openJournal d.env file = .ok w) : d.restore file = .ok ⟨w, h⟩ := by
  have hpairwise := hk.records_pairwise hw
  have hmem : ∀ record, record ∈ w.records d ↔ h.records.get record.id = some record :=
    fun record => hk.mem_records hw
  obtain ⟨offers, hoffered, hfirst, hnodup, hoffers⟩ := hk.order
  -- the two orders are of the same records, and both put parents first
  have hperm : (w.records d).Perm offers := by
    refine (perm_ext_iff_of_nodup ?_ hnodup).mpr fun record => ?_
    · exact hpairwise.imp fun hne heq => hne.1 (congrArg GroupMembershipRecord.id heq)
    · rw [hmem, hoffers]
  have hall : ∀ r ∈ offers, (offered d.env.crypto d.env.groupId d.trustedOwner
      offers).records.get r.id = some r := by
    intro r hr
    rw [← hoffered]
    exact (hoffers r).mp hr
  have hconverge : offered d.env.crypto d.env.groupId d.trustedOwner (w.records d) = h := by
    rw [hoffered]
    refine (consistent_of_all hall).converge ⟨hperm, hpairwise.imp And.right⟩
      ⟨List.Perm.refl _, hfirst⟩
  -- so each record is accepted at its place in the order of the journal
  have halong : (machine d.env.crypto).Along (Accepts d.env.crypto) d.noMembership
      (w.records d) := by
    refine along_accepts (hpairwise.imp And.left) (fun r _ => rfl) fun r hr => ?_
    change (offered d.env.crypto d.env.groupId d.trustedOwner (w.records d)).records.get r.id =
      some r
    rw [hconverge]
    exact (hmem r).mp hr
  have himport : d.importAll d.noMembership (w.memberships.map Entry.event) = .ok h := by
    rw [importAll_eq_run _ halong]
    · exact congrArg Except.ok hconverge
    · intro entry hentry
      obtain ⟨record, hrecord, -⟩ := hk.record_of_entry hw hentry
      exact ⟨record, hrecord⟩
  rw [hw.restore_eq hopen, himport]

/-! ### One more event -/

section

variable (hk : Keeps d events rs h) (hbrought : r.event ∈ events)

include hk hbrought

theorem Keeps.other (hkind : r.event.kind ≠ .membership) : Keeps d events (rs ++ [r]) h where
  brought := by
    intro r' hr'
    rcases mem_append.mp hr' with hr' | hr'
    · exact hk.brought r' hr'
    · rw [mem_singleton.mp hr']
      exact hbrought
  recorded := by
    intro r' hr' hmembership
    rcases mem_append.mp hr' with hr' | hr'
    · exact hk.recorded r' hr' hmembership
    · rw [mem_singleton.mp hr'] at hmembership
      exact absurd hmembership hkind
  stored := by
    intro id record hget
    obtain ⟨r', hr', hproof⟩ := hk.stored id record hget
    exact ⟨r', mem_append_left _ hr', hproof⟩
  order := hk.order

theorem Keeps.accept {record : GroupMembershipRecord} (hrecord : d.recordOf r.event = .ok record)
    (ha : Accepts d.env.crypto h record) : Keeps d events (rs ++ [r]) (h.accept record) where
  brought := by
    intro r' hr'
    rcases mem_append.mp hr' with hr' | hr'
    · exact hk.brought r' hr'
    · rw [mem_singleton.mp hr']
      exact hbrought
  recorded := by
    intro r' hr' hmembership
    rcases mem_append.mp hr' with hr' | hr'
    · obtain ⟨record', hrecord', hget⟩ := hk.recorded r' hr' hmembership
      exact ⟨record', hrecord', (accept_get_iff ha.fresh).mpr (.inr hget)⟩
    · rw [mem_singleton.mp hr']
      exact ⟨record, hrecord, (accept_get_iff ha.fresh).mpr (.inl ⟨rfl, rfl⟩)⟩
  stored := by
    intro id record' hget
    rcases (accept_get_iff ha.fresh).mp hget with ⟨-, rfl⟩ | hold
    · exact ⟨r, mem_append_right _ mem_cons_self, (recordOf_proof hrecord).symm⟩
    · obtain ⟨r', hr', hproof⟩ := hk.stored id record' hold
      exact ⟨r', mem_append_left _ hr', hproof⟩
  order := by
    have hwf := hk.wf
    obtain ⟨offers, hoffered, hfirst, hnodup, hoffers⟩ := hk.order
    refine ⟨offers ++ [record], ?_, ?_, ?_, ?_⟩
    · unfold offered
      rw [Machine.run_append]
      change h.accept record = (GroupMembershipHistory.importRecord d.env.crypto
        (offered d.env.crypto d.env.groupId d.trustedOwner offers) record).1
      rw [← hoffered, importRecord_of_accepts ha]
    · refine pairwise_append.mpr ⟨hfirst, pairwise_singleton _ _, ?_⟩
      intro earlier hearlier later hlater
      rw [mem_singleton.mp hlater]
      exact hwf.notMem_parents ha.fresh ((hoffers earlier).mp hearlier)
    · refine nodup_append.mpr ⟨hnodup, nodup_singleton _, ?_⟩
      intro earlier hearlier later hlater heq
      rw [mem_singleton.mp hlater] at heq
      have hget := (hoffers earlier).mp hearlier
      rw [heq, ha.fresh] at hget
      cases hget
    · intro s
      rw [mem_append, mem_singleton, accept_get_iff ha.fresh, ← hoffers]
      constructor
      · rintro (hs | rfl)
        · exact .inr hs
        · exact .inl ⟨rfl, rfl⟩
      · rintro (⟨-, rfl⟩ | hs)
        · exact .inr rfl
        · exact .inl hs

end

/-! ### Writes that fail -/

/-- The write of a frame failed, and so did its rollback: some of the frame is in the file. -/
structure Interrupted (env : Env) (w : Worker) (rs : List Stored) (r : Stored) : Prop where
  poisoned : w.poisoned = true
  good : ∀ r' ∈ rs ++ [r], r'.Good env
  compatible : ((rs ++ [r]).map Stored.entry).Pairwise Index.Compatible
  file_eq : ∃ n, w.file = magic ++ layout env magic.length rs ++
    (frameBytes env (magic.length + total rs) r).take n

theorem Interrupted.openJournal {env : Env} (hi : Interrupted env w rs r) : ∃ w',
    Worker.openJournal env w.file = .ok w' ∧ (Holds env w' rs ∨ Holds env w' (rs ++ [r])) := by
  obtain ⟨n, hfile⟩ := hi.file_eq
  have hgood : ∀ r' ∈ rs, r'.Good env := fun r' hr' => hi.good r' (mem_append_left _ hr')
  have hlast : r.Good env := hi.good r (mem_append_right _ mem_cons_self)
  by_cases hn : n < 4 + r.size
  · have hcompatible : (rs.map Stored.entry).Pairwise Index.Compatible := by
      have hall := hi.compatible
      rw [map_append] at hall
      exact (pairwise_append.mp hall).1
    obtain ⟨w', hopen, hholds⟩ := openJournal_layout hgood hcompatible
      (Torn.part r n hlast.size_le hn)
    rw [← hfile] at hopen
    exact ⟨w', hopen, .inl hholds⟩
  -- the whole frame is there
  have hwhole : w.file = magic ++ layout env magic.length (rs ++ [r]) ++ [] := by
    rw [hfile, take_of_length_le (by rw [frameBytes_length]; omega), layout_append, layout,
      layout, append_nil, append_nil, append_assoc]
  obtain ⟨w', hopen, hholds⟩ := openJournal_layout hi.good hi.compatible Torn.nothing
  rw [← hwhole] at hopen
  exact ⟨w', hopen, .inr hholds⟩

theorem Holds.compatible_append {env : Env} (hw : Holds env w rs) (hnew : NoConflict rs r) :
    ((rs ++ [r]).map Stored.entry).Pairwise Index.Compatible := by
  rw [map_append, pairwise_append]
  refine ⟨hw.compatible, pairwise_singleton _ _, ?_⟩
  intro e he e' he'
  obtain ⟨r', hr', rfl⟩ := mem_map.mp he
  rw [map_singleton, mem_singleton] at he'
  rw [he']
  exact hnew r' hr'

theorem Holds.writeFrame_fails {env : Env} (hw : Holds env w rs) (hgood : r.Good env)
    (hnew : NoConflict rs r) {io : WriteOutcome} (hio : io ≠ .written) :
    ∃ e w', w.writeFrame env r.event (env.sealFrame r.nonce w.endOffset r.clear) io =
        (w', .error e) ∧
      (w' = w ∨ (∃ reached, io = .poisoned reached) ∧ Interrupted env w' rs r) := by
  cases io with
  | written => exact absurd rfl hio
  | rolledBack =>
    refine ⟨"FileSystemException", w, ?_, .inl rfl⟩
    have hfile : w.file.take w.endOffset = w.file := by rw [← hw.file_end, take_length]
    unfold Worker.writeFrame
    rw [hfile]
  | poisoned reached =>
  refine ⟨_, _, rfl, .inr ⟨⟨reached, rfl⟩, rfl, ?_, hw.compatible_append hnew, reached, ?_⟩⟩
  · intro r' hr'
    rcases mem_append.mp hr' with hr' | hr'
    · exact hw.good r' hr'
    · rw [mem_singleton.mp hr']
      exact hgood
  change Worker.overwrite w.file w.endOffset _ = _
  have hbytes : setUint32 (env.sealFrame r.nonce w.endOffset r.clear).length ++
      env.sealFrame r.nonce w.endOffset r.clear = frameBytes env w.endOffset r := by
    rw [sealFrame_length]
    rfl
  unfold Worker.overwrite
  rw [hbytes, ← hw.file_end, take_length, drop_eq_nil_of_le (Nat.le_add_right _ _),
    append_nil, hw.file_end, hw.end_eq, ← hw.file_eq]

/-! ### Calls -/

/-- **Events as the libraries promise them**: each was decoded, the JSON library reads back the text
that it writes for it, and the digest tells what was signed. -/
structure Genuine (d : Device) (events : List GroupHistoryEvent) : Prop where
  decoded : ∀ e ∈ events, ∃ encoded, d.env.codec.decode encoded = .ok e
  reads_back : ∀ e ∈ events, d.env.codec.jsonDecode (d.env.codec.jsonEncode e.canonicalJson) =
    .ok e.canonicalJson
  no_collision : ∀ e ∈ events, ∀ e' ∈ events,
    d.env.codec.sha256 (d.env.codec.signingBytes e) =
      d.env.codec.sha256 (d.env.codec.signingBytes e') → e.body = e'.body

theorem Genuine.subset {events' : List GroupHistoryEvent} (hg : Genuine d events)
    (hsub : events' ⊆ events) : Genuine d events' where
  decoded e he := hg.decoded e (hsub he)
  reads_back e he := hg.reads_back e (hsub he)
  no_collision e he e' he' := hg.no_collision e (hsub he) e' (hsub he')

/-- The search index can take the event: an edit names its target by a text, or names none. -/
def Indexable (event : GroupHistoryEvent) : Prop := ∃ target, searchTarget event = .ok target

section Calls

variable {event : GroupHistoryEvent} {nonce : Nonce} {io : WriteOutcome}

theorem Genuine.eq_of_decodes (hg : Genuine d events) (he : event ∈ events)
    {decoded : GroupHistoryEvent}
    (hok : d.env.decodeEvent (d.env.codec.encode event) = .ok decoded) : decoded = event := by
  obtain ⟨encoded, hdecoded⟩ := hg.decoded event he
  unfold Env.decodeEvent at hok
  rcases Codec.decode_encode hdecoded (hg.reads_back event he) with hsame | htoolarge
  · rw [hsame, Except.ok.injEq] at hok
    exact hok.symm
  · rw [htoolarge] at hok
    cases hok

theorem Genuine.kind_eq (hg : Genuine d events) {e e' : GroupHistoryEvent} (he : e ∈ events)
    (he' : e' ∈ events) (hid : e.eventId = e'.eventId) : e.kind = e'.kind := by
  obtain ⟨encoded, hdecoded⟩ := hg.decoded e he
  obtain ⟨encoded', hdecoded'⟩ := hg.decoded e' he'
  have hdigest := Codec.digest_of_decode hdecoded
  have hdigest' := Codec.digest_of_decode hdecoded'
  have hbody := hg.no_collision e he e' he' (hdigest.trans (hid.trans hdigest'.symm))
  have hname : e.kind.name = e'.kind.name := by
    have hkinds := congrArg (fun l : List (DartString × Json) => (l[9]?).map Prod.snd) hbody
    exact Json.str.inj (some.inj hkinds)
  have hkind := e.kindByName_name
  rw [hname, e'.kindByName_name] at hkind
  exact (Except.ok.inj hkind).symm

/-- **What an append of such an event can do** to a journal: it changes nothing, it finds the event
there, it adds it, or it is interrupted. -/
theorem Holds.append_genuine (hw : Holds d.env w rs) (hg : Genuine d events)
    (he : event ∈ events) (hindexable : Indexable event) :
    (∃ e, w.append d.env event nonce io = (w, .error e)) ∨
      ((∃ r ∈ rs, r.event.eventId = event.eventId) ∧
        w.append d.env event nonce io = (w, .ok false)) ∨
      (∃ r w', r.event = event ∧ w.append d.env event nonce io = (w', .ok true) ∧
        Holds d.env w' (rs ++ [r])) ∨
      ∃ r w' e reached, r.event = event ∧ w.append d.env event nonce io = (w', .error e) ∧
        io = .poisoned reached ∧ Interrupted d.env w' rs r := by
  rcases hw.append_cases event nonce io with hfails | ⟨decoded, hdecodes, hthere, heq⟩ |
    ⟨r, -, hclear, hdecodes, hsigned, hnew, heq⟩
  · exact .inl hfails
  · rw [hg.eq_of_decodes he hdecodes] at hthere
    exact .inr (.inl ⟨hthere, heq⟩)
  -- the frame of the event itself is written
  have hsame : r.event = event := by
    rw [hclear] at hdecodes
    exact hg.eq_of_decodes he hdecodes
  have hgood : r.Good d.env := ⟨hdecodes, hsigned, by rw [hsame]; exact hindexable⟩
  by_cases hio : io = .written
  · subst hio
    obtain ⟨w', hwritten, hholds⟩ := hw.writeFrame hgood hnew
    exact .inr (.inr (.inl ⟨r, w', hsame, heq.trans hwritten, hholds⟩))
  obtain ⟨e, w', hfails, rfl | ⟨⟨reached, hpoisoned⟩, hinterrupted⟩⟩ :=
    hw.writeFrame_fails hgood hnew hio
  · exact .inl ⟨e, heq.trans hfails⟩
  · exact .inr (.inr (.inr ⟨r, w', e, reached, hsame, heq.trans hfails, hpoisoned,
      hinterrupted⟩))

theorem Interrupted.append (hi : Interrupted d.env w rs r) (event : GroupHistoryEvent)
    (nonce : Nonce) (io : WriteOutcome) : ∃ e, w.append d.env event nonce io = (w, .error e) := by
  refine ⟨"Reopen the journal after an I/O failure.", ?_⟩
  unfold Worker.append
  rw [hi.poisoned, if_pos rfl]

/-- A call tried to publish the record, which would be accepted, and its write was interrupted. -/
def Unpublished (d : Device) (calls : List Device.Call) (h : GroupMembershipHistory)
    (proof : GroupHistoryEvent) (record : GroupMembershipRecord) : Prop :=
  (∃ nonce reached, .importMembership proof nonce (.poisoned reached) ∈ calls) ∧
    d.recordOf proof = .ok record ∧ Accepts d.env.crypto h record

/-- The events that calls bring. -/
def eventsOf (calls : List Device.Call) : List GroupHistoryEvent :=
  calls.filterMap Device.Call.event?

/-- **What holds of a replica in every run of `calls`**: the journal keeps the history, as it is or
with the interrupted write of one more event. -/
structure Inv (d : Device) (calls : List Device.Call) (replica : Replica) : Prop where
  kept : ∃ rs, Keeps d (eventsOf calls) rs replica.membership ∧
    (Holds d.env replica.worker rs ∨
      ∃ r, Interrupted d.env replica.worker rs r ∧ r.event ∈ eventsOf calls ∧
        (r.event.kind = .membership →
          ∃ record, Unpublished d calls replica.membership r.event record))

variable {calls : List Device.Call} {replica : Replica}

theorem Inv.initial (d : Device) (calls : List Device.Call) : Inv d calls d.fresh :=
  ⟨[], Keeps.initial d (eventsOf calls), .inl (Holds.initial d.env)⟩

/-- **A restart gives the same membership**, or the membership with the record whose write was
interrupted; and the journal keeps it. -/
theorem Inv.restart (hinv : Inv d calls replica) :
    ∃ restored, d.restore replica.worker.file = .ok restored ∧ Inv d calls restored ∧
      (restored.membership = replica.membership ∨
        replica.worker.poisoned = true ∧ ∃ proof record,
          Unpublished d calls replica.membership proof record ∧
          restored.membership = replica.membership.accept record) := by
  obtain ⟨rs, hk, hw | ⟨r, hi, hbrought, hunpublished⟩⟩ := hinv.kept
  · refine ⟨replica, hk.restored hw hw.openJournal, hinv, .inl rfl⟩
  obtain ⟨w', hopen, hw' | hw'⟩ := hi.openJournal
  · -- the frame was cut off
    exact ⟨⟨w', replica.membership⟩, hk.restored hw' hopen, ⟨rs, hk, .inl hw'⟩, .inl rfl⟩
  by_cases hkind : r.event.kind = .membership
  · obtain ⟨record, hcall⟩ := hunpublished hkind
    have hk' := hk.accept hbrought hcall.2.1 hcall.2.2
    exact ⟨⟨w', replica.membership.accept record⟩, hk'.restored hw' hopen, ⟨_, hk', .inl hw'⟩,
      .inr ⟨hi.poisoned, r.event, record, hcall, rfl⟩⟩
  · have hk' := hk.other hbrought hkind
    exact ⟨⟨w', replica.membership⟩, hk'.restored hw' hopen, ⟨_, hk', .inl hw'⟩, .inl rfl⟩

section

variable (hinv : Inv d calls replica) (hg : Genuine d (eventsOf calls))

include hinv hg

theorem Inv.importMembership (hindexable : Indexable event)
    (hcall : .importMembership event nonce io ∈ calls) :
    Inv d calls (d.importMembership replica event nonce io).1 := by
  have he : event ∈ eventsOf calls := mem_filterMap.mpr ⟨_, hcall, rfl⟩
  unfold Device.importMembership
  cases hrecord : d.recordOf event with
  | error e => exact hinv
  | ok record =>
  dsimp only
  rcases importRecord_cases d.env.crypto replica.membership record with ⟨ha, heq⟩ | ⟨-, -, hne⟩
  swap
  · -- a record that is not accepted changes nothing
    split
    · next candidate hresult =>
      rw [hresult] at hne
      exact absurd rfl hne
    · exact hinv
  rw [heq]
  obtain ⟨rs, hk, hw | ⟨r, hi, -⟩⟩ := hinv.kept
  swap
  · obtain ⟨e, happend⟩ := hi.append event nonce io
    rw [happend]
    exact hinv
  rcases hw.append_genuine hg he hindexable with ⟨e, happend⟩ | ⟨⟨r, hr, hid⟩, -⟩ |
    ⟨r, w', hsame, happend, hw'⟩ | ⟨r, w', e, reached, hsame, happend, hpoisoned, hi⟩
  · rw [happend]
    exact hinv
  · -- an event of this identifier in the journal would be a record of the history
    have hkind : event.kind = .membership := by
      rw [← recordOf_proof hrecord]
      exact record.kind
    rw [← hg.kind_eq (hk.brought r hr) he hid] at hkind
    obtain ⟨record', hrecord', hget⟩ := hk.recorded r hr hkind
    have hsame : record'.id = record.id := by
      change record'.proof.eventId = record.proof.eventId
      rw [recordOf_proof hrecord', recordOf_proof hrecord, hid]
    rw [hsame, ha.fresh] at hget
    cases hget
  · rw [happend]
    have hk' := hk.accept (by rw [hsame]; exact he) (by rw [hsame]; exact hrecord) ha
    exact ⟨rs ++ [r], hk', .inl hw'⟩
  · rw [happend]
    refine ⟨rs, hk, .inr ⟨r, hi, by rw [hsame]; exact he, fun _ => ⟨record, ?_⟩⟩⟩
    rw [hsame]
    rw [hpoisoned] at hcall
    exact ⟨⟨nonce, reached, hcall⟩, hrecord, ha⟩

theorem Inv.importEvent (hindexable : Indexable event) {carrierDeviceId : DartString}
    (hcall : .importEvent event carrierDeviceId nonce io ∈ calls) :
    Inv d calls (d.importEvent replica event carrierDeviceId nonce io).1 := by
  have he : event ∈ eventsOf calls := mem_filterMap.mpr ⟨_, hcall, rfl⟩
  unfold Device.importEvent
  split
  · exact hinv
  next hcan =>
  rw [Bool.not_eq_true', Bool.not_eq_false] at hcan
  have hkind : event.kind ≠ .membership := kind_ne_of_canForward hcan
  obtain ⟨rs, hk, hw | ⟨r, hi, -⟩⟩ := hinv.kept
  swap
  · obtain ⟨e, happend⟩ := hi.append event nonce io
    rw [happend]
    exact hinv
  rcases hw.append_genuine hg he hindexable with ⟨e, happend⟩ | ⟨-, happend⟩ |
    ⟨r, w', hsame, happend, hw'⟩ | ⟨r, w', e, reached, hsame, happend, -, hi⟩
  · rw [happend]
    exact hinv
  · rw [happend]
    exact hinv
  · rw [happend]
    exact ⟨rs ++ [r], hk.other (by rw [hsame]; exact he) (by rw [hsame]; exact hkind), .inl hw'⟩
  · rw [happend]
    refine ⟨rs, hk, .inr ⟨r, hi, by rw [hsame]; exact he, fun hmembership => ?_⟩⟩
    rw [hsame] at hmembership
    exact absurd hmembership hkind

theorem Inv.step (hindexable : ∀ event ∈ eventsOf calls, Indexable event) {call : Device.Call}
    (hcall : call ∈ calls) : Inv d calls (d.machine.step replica call).1 := by
  cases call with
  | importMembership proof nonce io =>
    exact hinv.importMembership hg
      (hindexable proof (mem_filterMap.mpr ⟨_, hcall, rfl⟩)) hcall
  | importEvent event carrierDeviceId nonce io =>
    exact hinv.importEvent hg (hindexable event (mem_filterMap.mpr ⟨_, hcall, rfl⟩)) hcall
  | restart =>
  obtain ⟨restored, hrestore, hinv', -⟩ := hinv.restart
  change Inv d calls (d.restart replica).1
  unfold Device.restart
  rw [hrestore]
  exact hinv'

end

end Calls

/-- **The same membership**: the records, the heads, and so who may receive and forward what. -/
structure SameMembership (crypto : Crypto) (h h' : GroupMembershipHistory) : Prop where
  records_eq : h'.records = h.records
  heads_eq : h'.heads = h.heads
  canReceive_eq : ∀ event recipientDeviceId,
    h'.canReceive crypto event recipientDeviceId = h.canReceive crypto event recipientDeviceId
  canForward_eq : ∀ event carrierDeviceId recipientDeviceId,
    h'.canForward crypto event carrierDeviceId recipientDeviceId =
      h.canForward crypto event carrierDeviceId recipientDeviceId

theorem SameMembership.refl (crypto : Crypto) (h : GroupMembershipHistory) :
    SameMembership crypto h h :=
  ⟨rfl, rfl, fun _ _ => rfl, fun _ _ _ => rfl⟩

theorem restore_nil (d : Device) : d.restore [] = .ok d.fresh :=
  (Keeps.initial d []).restored (Holds.initial d.env) (openJournal_nil d.env)

/-- **Membership restart.** After every run of imports and restarts of a replica, whatever each of
them was answered and however its write ended, restoring the journal succeeds and gives the same
membership. If the journal is poisoned it may give one record more: that of an import whose write
failed, with the rollback failing too. -/
theorem membership_restart (d : Device) (calls : List Device.Call)
    (hgenuine : Genuine d (eventsOf calls))
    (hindexable : ∀ event ∈ eventsOf calls, Indexable event) :
    ∃ restored, d.restore (d.machine.run d.fresh calls).worker.file = .ok restored ∧
      (SameMembership d.env.crypto (d.machine.run d.fresh calls).membership restored.membership ∨
        (d.machine.run d.fresh calls).worker.poisoned = true ∧ ∃ proof record,
          Unpublished d calls (d.machine.run d.fresh calls).membership proof record ∧
          restored.membership = (d.machine.run d.fresh calls).membership.accept record) := by
  have hinv : Inv d calls (d.machine.run d.fresh calls) := by
    refine Machine.run_induction ?_ (Inv.initial d calls)
    intro replica call hcall hinv
    exact hinv.step hgenuine hindexable hcall
  obtain ⟨restored, hrestore, -, hsame | hmore⟩ := hinv.restart
  · refine ⟨restored, hrestore, .inl ?_⟩
    rw [hsame]
    exact SameMembership.refl _ _
  · exact ⟨restored, hrestore, .inr hmore⟩

/-! ### A device of the owner -/

namespace Sample

open Group.Sample

def note : GroupHistoryEvent :=
  { event byOwner 1 1 (digest 0) isDigest_zero with kind := .message }

def device : Device where
  env := { twoEvents with codec := codec [root.proof, note] }
  readPayload _ := .ok root.payload
  localDeviceId := owner.deviceId
  trustedOwner := owner

theorem genuine_device : Genuine device [root.proof, note] where
  decoded := by
    rw [forall_mem_cons, forall_mem_singleton]
    exact ⟨⟨[1], by decide⟩, ⟨[2], by decide⟩⟩
  reads_back := by decide
  no_collision := by
    intro e he e' he' hsame
    rw [mem_pair] at he he'
    rcases he with rfl | rfl
    · rcases he' with rfl | rfl
      · rfl
      · exact absurd hsame (by decide)
    · rcases he' with rfl | rfl
      · exact absurd hsame (by decide)
      · rfl

theorem indexable_device : ∀ e ∈ [root.proof, note], Indexable e := by
  rw [forall_mem_cons, forall_mem_singleton]
  exact ⟨⟨none, rfl⟩, ⟨some note.eventId, rfl⟩⟩

def restarts : List Device.Call :=
  [.importMembership root.proof nonce .rolledBack, .importMembership root.proof nonce .written,
    .importEvent note owner.deviceId nonce .written, .restart,
    .importMembership root.proof nonce .written]

def interrupted : List Device.Call := [.importMembership root.proof nonce (.poisoned 100)]

/-- **A record that was never published comes back.** The import of the root fails, and the replica
goes on without it; the journal has its frame, and the restart imports it. -/
theorem unpublished_record_returns :
    Genuine device (eventsOf interrupted) ∧
      (∀ event ∈ eventsOf interrupted, Indexable event) ∧
      ∃ restored,
        device.restore (device.machine.run device.fresh interrupted).worker.file = .ok restored ∧
        (device.machine.run device.fresh interrupted).membership.heads = ∅ ∧
        restored.membership.heads = {digest 0} ∧
        ¬ SameMembership device.env.crypto
          (device.machine.run device.fresh interrupted).membership restored.membership := by
  have hsub : eventsOf interrupted ⊆ [root.proof, note] := by decide
  have hruns : ((device.restore (device.machine.run device.fresh interrupted).worker.file).toOption.map
      fun restored => decide (restored.membership.heads = {digest 0})) = some true := by
    decide +kernel
  have hbefore : (device.machine.run device.fresh interrupted).membership.heads = ∅ := by
    decide +kernel
  obtain ⟨restored, hrestore, hheads⟩ := map_eq_some_iff.mp hruns
  rw [toOption_eq_some] at hrestore
  rw [decide_eq_true_eq] at hheads
  refine ⟨genuine_device.subset hsub, fun e he => indexable_device e (hsub he), restored, hrestore,
    hbefore, hheads, fun hsame => ?_⟩
  have heads := hsame.heads_eq
  rw [hbefore, hheads] at heads
  exact Finset.singleton_ne_empty _ heads

theorem membership_restart_restarts :
    Genuine device (eventsOf restarts) ∧ (∀ event ∈ eventsOf restarts, Indexable event) ∧
      (device.machine.run device.fresh restarts).membership.heads = {digest 0} ∧
      ∃ restored,
        device.restore (device.machine.run device.fresh restarts).worker.file = .ok restored ∧
        SameMembership device.env.crypto
          (device.machine.run device.fresh restarts).membership restored.membership := by
  have hsub : eventsOf restarts ⊆ [root.proof, note] := by decide
  have hgenuine := genuine_device.subset hsub
  have hindexable : ∀ e ∈ eventsOf restarts, Indexable e :=
    fun e he => indexable_device e (hsub he)
  have hstate : (device.machine.run device.fresh restarts).worker.poisoned = false ∧
      (device.machine.run device.fresh restarts).membership.heads = {digest 0} := by
    decide +kernel
  obtain ⟨restored, hrestore, hsame | ⟨hpoisoned, -⟩⟩ :=
    membership_restart device restarts hgenuine hindexable
  · exact ⟨hgenuine, hindexable, hstate.2, restored, hrestore, hsame⟩
  · rw [hstate.1] at hpoisoned
    cases hpoisoned

end Sample

end Journal
end Conest

import Conest.Mesh.Fragmentation
import Conest.Mesh.Node

/-!
# Links that get a packet

The link layers queue a packet for every neighbour but one, and skip those that do not take so much
in one write. `_sendFitting` makes one choice for all neighbours: the whole packet if it fits the
smallest usable link, else fragments that fit that link. Fragments fit all the others then, so every
usable link gets the packet one way or the other, as long as it can be cut for the smallest one.
Where it cannot, because the header of the fragments leaves too little room, nothing is sent at all,
not even to links that take the whole packet (`every_link_iff`).
-/

namespace Conest
namespace Mesh

open Lib List

/-! ### What the link layers do -/

/-- The links that a send goes to: those that take a packet of this length. -/
def Send.links (linkLimits : LinkedMap DartString ℤ) : Send → List DartString
  | .broadcast packet exceptLink =>
    (linkLimits.entries.filter fun entry =>
      decide (some entry.1 ≠ exceptLink ∧ (packet.length : ℤ) ≤ entry.2)).map Prod.fst
  | .sendTo link packet =>
    (linkLimits.entries.filter fun entry =>
      decide (entry.1 = link ∧ (packet.length : ℤ) ≤ entry.2)).map Prod.fst

/-- The bytes of a send. -/
def Send.bytes : Send → Bytes
  | .broadcast packet _ => packet
  | .sendTo _ packet => packet

namespace BitchatNode

variable (c : NodeConfig) (env : Env) (packet : BitchatPacket) (encoded : Bytes)
  (exceptLink : Option DartString)

variable {cap limit : ℤ} {fragments : List BitchatPacket}

/-- What a link is sent, in order. -/
def sentOn (link : DartString) : List Bytes :=
  ((sendsFor c env packet encoded exceptLink).filter fun sending =>
    decide (link ∈ sending.send.links env.linkLimits)).map fun sending => sending.send.bytes

/-- The packet goes to a link, whole or in all of its fragments. -/
def Reaches (link : DartString) : Prop :=
  sentOn c env packet encoded exceptLink link = [encoded] ∨
    ∃ limit fragments, bitchatFragmentsFor packet limit env.fragmentId = some fragments ∧
      sentOn c env packet encoded exceptLink link = fragments.map fun f => f.encode none

/-- A link that is used and takes the packet. -/
def TakesWhole (link : DartString) : Prop :=
  ∃ limit, env.linkLimits.get link = some limit ∧ some link ≠ exceptLink ∧
    bitchatMinLinkLimit ≤ limit ∧ (encoded.length : ℤ) ≤ min limit c.maxPacketBytes

/-- The length of the header that the fragments of a packet have, which depends on its route. -/
def fragmentOverhead (id : Bytes) : ℕ :=
  ((fragmentOf packet id 0 1 []).encode none).length

/-- A limit for which the header leaves too little, or so little that there are too many pieces. -/
def TooTight (id : Bytes) (limit : ℤ) : Prop :=
  limit < fragmentOverhead packet id + bitchatMinFragmentChunk ∨
    0xffff < ((packet.encode none).length + (limit - fragmentOverhead packet id).toNat - 1) /
      (limit - fragmentOverhead packet id).toNat

/-- The packet has to be cut for the smallest link, and that is too tight. -/
def Stuck : Prop :=
  packet.type ≠ BitchatType.fragment ∧
    ∃ smallest ∈ (usableLinks c env exceptLink).map Prod.snd,
      (∀ limit ∈ (usableLinks c env exceptLink).map Prod.snd, smallest ≤ limit) ∧
      smallest < encoded.length ∧ TooTight packet env.fragmentId smallest

variable {c env packet encoded exceptLink}

/-! ### The smallest link -/

theorem foldl_min_mem (limit : ℤ) (limits : List ℤ) : limits.foldl min limit ∈ limit :: limits := by
  induction limits generalizing limit with
  | nil => exact mem_cons_self
  | cons next limits ih =>
  rw [foldl_cons]
  rcases mem_cons.mp (ih (min limit next)) with h | h
  · rw [h]
    rcases min_choice limit next with hmin | hmin
    · rw [hmin]
      exact mem_cons_self
    · rw [hmin]
      exact mem_cons_of_mem _ mem_cons_self
  · exact mem_cons_of_mem _ (mem_cons_of_mem _ h)

theorem foldl_min_le (limit : ℤ) (limits : List ℤ) :
    ∀ other ∈ limit :: limits, limits.foldl min limit ≤ other := by
  induction limits generalizing limit with
  | nil =>
    intro other hother
    rw [mem_singleton.mp hother]
    rfl
  | cons next limits ih =>
  intro other hother
  have hhead := ih (min limit next) (min limit next) mem_cons_self
  rcases mem_cons.mp hother with rfl | hother
  · exact hhead.trans (min_le_left _ _)
  · rcases mem_cons.mp hother with rfl | hother
    · exact hhead.trans (min_le_right _ _)
    · exact ih _ other (mem_cons_of_mem _ hother)

/-! ### Usable links -/

theorem mem_usableLinks {link : DartString} :
    (link, cap) ∈ usableLinks c env exceptLink ↔ ∃ limit, env.linkLimits.get link = some limit ∧
      some link ≠ exceptLink ∧ bitchatMinLinkLimit ≤ limit ∧ cap = min limit c.maxPacketBytes := by
  unfold usableLinks
  rw [mem_map]
  constructor
  · rintro ⟨⟨link', limit⟩, hmem, heq⟩
    rw [mem_filter, decide_eq_true_eq] at hmem
    cases heq
    exact ⟨limit, LinkedMap.get_eq_some.mpr hmem.1, hmem.2.1, hmem.2.2, rfl⟩
  · rintro ⟨limit, hget, hexcept, hmin, rfl⟩
    refine ⟨(link, limit), ?_, rfl⟩
    rw [mem_filter, decide_eq_true_eq]
    exact ⟨LinkedMap.get_eq_some.mp hget, hexcept, hmin⟩

theorem mem_links_broadcast {link : DartString} {bytes : Bytes} :
    link ∈ (Send.broadcast bytes exceptLink).links env.linkLimits ↔
      ∃ limit, env.linkLimits.get link = some limit ∧ some link ≠ exceptLink ∧
        (bytes.length : ℤ) ≤ limit := by
  unfold Send.links
  rw [mem_map]
  constructor
  · rintro ⟨⟨link', limit⟩, hmem, rfl⟩
    rw [mem_filter, decide_eq_true_eq] at hmem
    exact ⟨limit, LinkedMap.get_eq_some.mpr hmem.1, hmem.2.1, hmem.2.2⟩
  · rintro ⟨limit, hget, hexcept, hle⟩
    refine ⟨(link, limit), ?_, rfl⟩
    rw [mem_filter, decide_eq_true_eq]
    exact ⟨LinkedMap.get_eq_some.mp hget, hexcept, hle⟩

theorem mem_links_sendTo {link link' : DartString} {bytes : Bytes} :
    link ∈ (Send.sendTo link' bytes).links env.linkLimits ↔
      link = link' ∧
        ∃ limit, env.linkLimits.get link = some limit ∧ (bytes.length : ℤ) ≤ limit := by
  unfold Send.links
  rw [mem_map]
  constructor
  · rintro ⟨⟨link'', limit⟩, hmem, rfl⟩
    rw [mem_filter, decide_eq_true_eq] at hmem
    exact ⟨hmem.2.1, limit, LinkedMap.get_eq_some.mpr hmem.1, hmem.2.2⟩
  · rintro ⟨rfl, limit, hget, hle⟩
    refine ⟨(link, limit), ?_, rfl⟩
    rw [mem_filter, decide_eq_true_eq]
    exact ⟨LinkedMap.get_eq_some.mp hget, rfl, hle⟩

theorem length_le_of_sentOn {link : DartString} {bytes : Bytes}
    (h : bytes ∈ sentOn c env packet encoded exceptLink link) :
    ∃ limit, env.linkLimits.get link = some limit ∧ (bytes.length : ℤ) ≤ limit := by
  obtain ⟨sending, hmem, rfl⟩ := mem_map.mp h
  rw [mem_filter, decide_eq_true_eq] at hmem
  cases hsend : sending.send with
  | broadcast bytes exceptLink' =>
    rw [hsend] at hmem
    obtain ⟨limit, hget, -, hle⟩ := mem_links_broadcast.mp hmem.2
    exact ⟨limit, hget, hle⟩
  | sendTo link' bytes =>
    rw [hsend] at hmem
    exact (mem_links_sendTo.mp hmem.2).2

theorem nodup_usableLinks : ((usableLinks c env exceptLink).map Prod.fst).Nodup := by
  unfold usableLinks
  rw [map_map]
  exact env.linkLimits.nodup.sublist (filter_sublist.map Prod.fst)

theorem filter_fst_eq {l : List (DartString × ℤ)} (h : (l.map Prod.fst).Nodup) {link : DartString}
    (hmem : (link, cap) ∈ l) : (l.filter fun entry => decide (entry.1 = link)) = [(link, cap)] := by
  induction l with
  | nil => cases hmem
  | cons entry l ih =>
  rw [map_cons, nodup_cons] at h
  rcases mem_cons.mp hmem with rfl | hmem
  · rw [filter_cons_of_pos (by simp), filter_eq_nil_iff.mpr]
    intro other hother heq
    exact h.1 (mem_map.mpr ⟨other, hother, of_decide_eq_true heq⟩)
  have hne : entry.1 ≠ link := by
    intro heq
    exact h.1 (mem_map.mpr ⟨(link, cap), hmem, heq.symm⟩)
  rw [filter_cons_of_neg (by simpa using hne), ih h.2 hmem]

/-! ### The three ways to send -/

theorem sendsFor_of_usable (packet : BitchatPacket) (encoded : Bytes) {link : DartString}
    (h : (link, cap) ∈ usableLinks c env exceptLink) :
    ∃ smallest ∈ (usableLinks c env exceptLink).map Prod.snd,
      (∀ limit ∈ (usableLinks c env exceptLink).map Prod.snd, smallest ≤ limit) ∧
      sendsFor c env packet encoded exceptLink =
        if (encoded.length : ℤ) ≤ smallest then [⟨none, .broadcast encoded exceptLink, false⟩]
        else if packet.type = BitchatType.fragment then
          ((usableLinks c env exceptLink).filter fun link =>
            decide ((encoded.length : ℤ) ≤ link.2)).map
              fun link => ⟨none, .sendTo link.1 encoded, true⟩
        else
          match bitchatFragmentsFor packet smallest env.fragmentId with
          | none => []
          | some fragments => fragments.map fun fragment =>
              ⟨some (fragment.dedupKey c.sha256), .broadcast (fragment.encode none) exceptLink,
                false⟩ := by
  unfold sendsFor
  dsimp only
  cases hlimits : (usableLinks c env exceptLink).map Prod.snd with
  | nil =>
    have hcap := mem_map_of_mem (f := Prod.snd) h
    rw [hlimits] at hcap
    cases hcap
  | cons limit limits => exact ⟨_, foldl_min_mem limit limits, foldl_min_le limit limits, rfl⟩

theorem filter_broadcasts {l : List Sending} {link : DartString}
    (h : ∀ sending ∈ l, link ∈ sending.send.links env.linkLimits) :
    (l.filter fun sending => decide (link ∈ sending.send.links env.linkLimits)) = l :=
  filter_eq_self.mpr fun sending hmem => decide_eq_true (h sending hmem)

theorem sentOn_fragment {link : DartString} (h : (link, cap) ∈ usableLinks c env exceptLink)
    (hcap : (encoded.length : ℤ) ≤ cap) (hsends : sendsFor c env packet encoded exceptLink =
      ((usableLinks c env exceptLink).filter fun link =>
        decide ((encoded.length : ℤ) ≤ link.2)).map
          fun link => ⟨none, .sendTo link.1 encoded, true⟩) :
    sentOn c env packet encoded exceptLink link = [encoded] := by
  obtain ⟨limit, hget, -, -, rfl⟩ := mem_usableLinks.mp h
  have hlimit : (encoded.length : ℤ) ≤ limit := hcap.trans (min_le_left _ _)
  unfold sentOn
  rw [hsends, filter_map, filter_filter]
  have hone : ((usableLinks c env exceptLink).filter fun entry =>
      ((fun sending : Sending => decide (link ∈ sending.send.links env.linkLimits)) ∘
        fun link : DartString × ℤ => ⟨none, .sendTo link.1 encoded, true⟩) entry &&
        decide ((encoded.length : ℤ) ≤ entry.2)) =
      [(link, min limit c.maxPacketBytes)] := by
    rw [← filter_fst_eq nodup_usableLinks h]
    refine filter_congr fun entry hentry => ?_
    rw [Bool.eq_iff_iff, Bool.and_eq_true, decide_eq_true_eq, decide_eq_true_eq,
      Function.comp_apply, decide_eq_true_eq, mem_links_sendTo]
    constructor
    · rintro ⟨⟨heq, -⟩, -⟩
      exact heq.symm
    intro heq
    refine ⟨⟨heq.symm, limit, hget, hlimit⟩, ?_⟩
    obtain ⟨limit', hget', -, -, hcap'⟩ := mem_usableLinks.mp
      (show (entry.1, entry.2) ∈ usableLinks c env exceptLink from hentry)
    rw [heq, hget] at hget'
    cases hget'
    rw [hcap']
    exact hcap
  rw [hone]
  rfl

theorem bitchatFragmentsFor_eq_none {id : Bytes} :
    bitchatFragmentsFor packet limit id = none ↔ TooTight packet id limit := by
  unfold bitchatFragmentsFor TooTight fragmentOverhead
  dsimp only
  split
  · exact ⟨fun _ => .inl (by omega), fun _ => rfl⟩
  split
  case isTrue hmany => exact ⟨fun _ => .inr hmany, fun _ => rfl⟩
  case isFalse hroom hfew =>
    constructor
    · intro h
      cases h
    · rintro (h | h)
      · omega
      · exact absurd h hfew

theorem bitchatFragmentsFor_ne_nil {id : Bytes}
    (h : bitchatFragmentsFor packet limit id = some fragments) : fragments ≠ [] := by
  obtain ⟨size, hmin, -, -, rfl⟩ := bitchatFragmentsFor_eq_some h
  have hsize : 0 < size := Nat.lt_of_lt_of_le (by decide) hmin
  have hle := le_sliceCount_mul hsize (packet.encode none).length
  have hpos := Nat.pos_of_mul_pos_right ((encode_none_pos packet).trans_le hle)
  intro hnil
  have hlength := congrArg length hnil
  rw [length_map, length_range, length_nil] at hlength
  omega

theorem length_le_of_fragmentsFor {id : Bytes}
    (h : bitchatFragmentsFor packet limit id = some fragments) :
    ∀ f ∈ fragments, ((f.encode none).length : ℤ) ≤ limit := by
  obtain ⟨size, -, rfl, -, rfl⟩ := bitchatFragmentsFor_eq_some h
  intro f hf
  obtain ⟨index, -, rfl⟩ := mem_map.mp hf
  have hslice := length_slice_le size (packet.encode none) index
  rw [length_fragmentOf]
  omega

/-- **Every usable link that takes a packet gets it**, whole or in all of its fragments, unless the
packet has to be cut for the smallest usable link and that is too tight; and no link is sent more
than it takes. -/
theorem every_link_iff (c : NodeConfig) (env : Env) (packet : BitchatPacket) (encoded : Bytes)
    (exceptLink : Option DartString) :
    ((∀ link, TakesWhole c env encoded exceptLink link →
        Reaches c env packet encoded exceptLink link) ∧
      ∀ link, ∀ bytes ∈ sentOn c env packet encoded exceptLink link,
        ∃ limit, env.linkLimits.get link = some limit ∧ (bytes.length : ℤ) ≤ limit) ↔
    ((∃ link, TakesWhole c env encoded exceptLink link) →
      ¬ Stuck c env packet encoded exceptLink) := by
  constructor
  · rintro ⟨hreaches, -⟩ ⟨link, htakes⟩ ⟨htype, smallest, hmem, hmin, hlt, htight⟩
    have hnone := bitchatFragmentsFor_eq_none.mpr htight
    have hlink := hreaches link htakes
    obtain ⟨limit, hget, hexcept, hlimit, hfits⟩ := htakes
    obtain ⟨smallest', hmem', hmin', hsends⟩ := sendsFor_of_usable packet encoded
      (mem_usableLinks.mpr ⟨limit, hget, hexcept, hlimit, rfl⟩)
    obtain rfl : smallest' = smallest := le_antisymm (hmin' _ hmem) (hmin _ hmem')
    rw [if_neg (Int.not_le.mpr hlt), if_neg htype, hnone] at hsends
    have hnothing : sentOn c env packet encoded exceptLink link = [] := by
      unfold sentOn
      rw [hsends]
      rfl
    rcases hlink with hwhole | ⟨cap, fragments, hcut, hall⟩
    · rw [hnothing] at hwhole
      cases hwhole
    · rw [hnothing] at hall
      exact bitchatFragmentsFor_ne_nil hcut (map_eq_nil_iff.mp hall.symm)
  · intro hstuck
    refine ⟨fun link htakes => ?_, fun link bytes hbytes => length_le_of_sentOn hbytes⟩
    have hnot := hstuck ⟨link, htakes⟩
    obtain ⟨limit, hget, hexcept, hlimit, hfits⟩ := htakes
    have husable : (link, min limit c.maxPacketBytes) ∈ usableLinks c env exceptLink :=
      mem_usableLinks.mpr ⟨limit, hget, hexcept, hlimit, rfl⟩
    obtain ⟨smallest, hmem, hmin, hsends⟩ := sendsFor_of_usable packet encoded husable
    have hsmallest := hmin _ (mem_map_of_mem husable)
    by_cases hwhole : (encoded.length : ℤ) ≤ smallest
    · rw [if_pos hwhole] at hsends
      left
      have htaken : link ∈ (Send.broadcast encoded exceptLink).links env.linkLimits :=
        mem_links_broadcast.mpr ⟨limit, hget, hexcept, hfits.trans (min_le_left _ _)⟩
      unfold sentOn
      rw [hsends, filter_broadcasts]
      · rfl
      · intro sending hsending
        rw [mem_singleton.mp hsending]
        exact htaken
    by_cases htype : packet.type = BitchatType.fragment
    · rw [if_neg hwhole, if_pos htype] at hsends
      exact .inl (sentOn_fragment husable hfits hsends)
    rw [if_neg hwhole, if_neg htype] at hsends
    cases hcut : bitchatFragmentsFor packet smallest env.fragmentId with
    | none =>
      have htight := bitchatFragmentsFor_eq_none.mp hcut
      exact absurd ⟨htype, smallest, hmem, hmin, Int.not_le.mp hwhole, htight⟩ hnot
    | some fragments =>
    rw [hcut] at hsends
    -- what fits the smallest link fits this one
    refine .inr ⟨smallest, fragments, hcut, ?_⟩
    unfold sentOn
    rw [hsends, filter_broadcasts]
    · rw [map_map]
      rfl
    · intro sending hsending
      obtain ⟨f, hf, rfl⟩ := mem_map.mp hsending
      have hle := length_le_of_fragmentsFor hcut f hf
      exact mem_links_broadcast.mpr ⟨limit, hget, hexcept,
        hle.trans (hsmallest.trans (min_le_left _ _))⟩

end BitchatNode

namespace Sample

def routed : BitchatPacket where
  version := 2
  type := BitchatType.message
  ttl := 7
  timestamp := 0
  senderId := [1, 2, 3, 4, 5, 6, 7, 8]
  recipientId := some [2, 2, 3, 4, 5, 6, 7, 8]
  route := some [[3, 2, 3, 4, 5, 6, 7, 8], [4, 2, 3, 4, 5, 6, 7, 8]]
  payload := List.replicate 100 65
  compressed := false
  signature := none

def neighbours : Env where
  now := 0
  onPrivate _ _ := .notMine
  wantsRecipient _ := false
  inflate _ := none
  linkLimits := LinkedMap.ofEntries
    [(DartString.ofString "near", 512), (DartString.ofString "small", 110)]
  fragmentId := noteId

def config : NodeConfig where
  onPacket := false
  maxPacketBytes := 512
  relay := true
  sha256 _ := []

/-- **A small neighbour silences a large one.** The 164 bytes of the packet fit the first neighbour.
A fragment with the two hops has a header of 57 bytes, which leaves 53 of the 110. -/
theorem near_is_sent_nothing :
    ¬ ∀ link, BitchatNode.TakesWhole config neighbours (routed.encode none) none link →
      BitchatNode.Reaches config neighbours routed (routed.encode none) none link := by
  intro h
  have htakes : BitchatNode.TakesWhole config neighbours (routed.encode none) none
      (DartString.ofString "near") :=
    ⟨512, by decide, by decide, by decide, by decide +kernel⟩
  have hnothing : BitchatNode.sentOn config neighbours routed (routed.encode none) none
      (DartString.ofString "near") = [] := by
    decide +kernel
  rcases h _ htakes with hwhole | ⟨limit, fragments, hcut, hall⟩
  · rw [hnothing] at hwhole
    cases hwhole
  · rw [hnothing] at hall
    exact BitchatNode.bitchatFragmentsFor_ne_nil hcut (map_eq_nil_iff.mp hall.symm)

end Sample

end Mesh
end Conest

import Nvx.Guest.Ingress.Collect

namespace Nvx.Guest.Ingress

variable {scans : Nat → Scan} {port : UInt16} {inode : UInt64}

def states (scans : Nat → Scan) : Nat → List UdpState
  | 0 => []
  | count + 1 => (finish (states scans count) (scans count)).1

def announcement (scans : Nat → Scan) (index : Nat) : List UInt8 :=
  (finish (states scans index) (scans index)).2

def Held (scan : Scan) (port : UInt16) (inode : UInt64) : Prop :=
  ∃ socket ∈ scan.sockets, socket.port = port ∧ socket.inode = inode

def Unconnected (scan : Scan) (port : UInt16) (inode : UInt64) : Prop :=
  ∃ socket ∈ scan.sockets, socket.port = port ∧ socket.inode = inode ∧ socket.connected = false

/-- The socket is in every one of the first scans from some scan on, and is
unconnected from there up to one that is late enough. -/
def Settled (scans : Nat → Scan) (port : UInt16) (inode : UInt64) (count : Nat) : Prop :=
  ∃ first middle, first ≤ middle ∧ middle < count ∧ (∀ index, first ≤ index → index < count →
      Held (scans index) port inode) ∧
    (∀ index, first ≤ index → index ≤ middle → Unconnected (scans index) port inode) ∧
    udpSettleMs.toNat ≤ (scans middle).now.toNat - (scans first).now.toNat

open Classical in
/-- The TCP listeners of a scan and the listeners of its settled sockets. -/
noncomputable def settledListeners (scans : Nat → Scan) (index : Nat) :
    List Listener :=
  tcpListeners (scans index) ++ ((scans index).sockets.filter fun socket =>
    Settled scans socket.port socket.inode (index + 1)).map udpListener

/-- Scans of distinct sockets, at times that do not decrease, none with more
settled listeners than a table tracks. -/
structure Ordinary (scans : Nat → Scan) : Prop where
  distinct : ∀ index, (scans index).sockets.Pairwise fun first second =>
    (first.port, first.inode) ≠ (second.port, second.inode)
  later : ∀ index, (scans index).now ≤ (scans (index + 1)).now
  few : ∀ index, ((settledListeners scans index).map Listener.key).dedup.length ≤ maxTracked

/-- The socket is unconnected in every one of the first scans from one on. -/
def UnconnectedFrom (scans : Nat → Scan) (port : UInt16) (inode : UInt64)
    (first count : Nat) : Prop :=
  first < count ∧ ∀ index, first ≤ index → index < count → Unconnected (scans index) port inode

theorem Unconnected.held (unconnected : Unconnected scan port inode) : Held scan port inode := by
  obtain ⟨socket, member, samePort, sameInode, _⟩ := unconnected
  exact ⟨socket, member, samePort, sameInode⟩

theorem unconnectedFrom_succ :
    UnconnectedFrom scans port inode first (count + 1) ↔ Unconnected (scans count) port inode ∧
        (first = count ∨ UnconnectedFrom scans port inode first count) := by
  constructor
  · intro unconnected
    refine ⟨unconnected.2 count (by have := unconnected.1; omega)
      (by omega), ?_⟩
    rcases Nat.lt_succ_iff_lt_or_eq.mp unconnected.1 with before | last
    · exact .inr ⟨before, fun index low high =>
        unconnected.2 index low (by omega)⟩
    · exact .inl last
  · intro both
    rcases both.2 with rfl | before
    · refine ⟨by omega, fun index low high => ?_⟩
      rw [show index = first by omega]
      exact both.1
    · refine ⟨by have := before.1; omega, fun index low high => ?_⟩
      rcases Nat.lt_succ_iff_lt_or_eq.mp high with earlier | rfl
      · exact before.2 index low earlier
      · exact both.1

theorem settled_succ : Settled scans port inode (count + 1) ↔
      Held (scans count) port inode ∧ (Settled scans port inode count ∨
        ∃ first, UnconnectedFrom scans port inode first (count + 1) ∧ udpSettleMs.toNat ≤
            (scans count).now.toNat - (scans first).now.toNat) := by
  constructor
  · intro settled
    obtain ⟨first, middle, order, bound, held, unconnected, late⟩ := settled
    refine ⟨held count (by omega) (by omega), ?_⟩
    rcases Nat.lt_succ_iff_lt_or_eq.mp bound with before | rfl
    · exact .inl ⟨first, middle, order, before, fun index low high =>
        held index low (by omega), unconnected, late⟩
    · exact .inr ⟨first, ⟨by omega, fun index low high =>
        unconnected index low (by omega)⟩, late⟩
  · intro both
    obtain ⟨last, settled | recent⟩ := both
    · obtain ⟨first, middle, order, bound, held, unconnected, late⟩ := settled
      refine ⟨first, middle, order, by omega, ?_, unconnected, late⟩
      intro index low high
      rcases Nat.lt_succ_iff_lt_or_eq.mp high with earlier | rfl
      · exact held index low earlier
      · exact last
    · obtain ⟨first, unconnected, late⟩ := recent
      exact ⟨first, count, by have := unconnected.1; omega, by omega,
        fun index low high => (unconnected.2 index low high).held,
        fun index low high => unconnected.2 index low (by omega), late⟩

theorem Ordinary.now_le (ordinary : Ordinary scans) (order : first ≤ last) :
    (scans first).now.toNat ≤ (scans last).now.toNat := by
  induction order with
  | refl => exact Nat.le_refl _
  | step order induction =>
    exact induction.trans (UInt64.le_iff_toNat_le.mp (ordinary.later _))

inductive Tracks (scans : Nat → Scan) (port : UInt16) (inode : UInt64)
    (count : Nat) : Option UdpState → Prop
  | absent : ¬Settled scans port inode count →
      (∀ first, ¬UnconnectedFrom scans port inode first count) →
      Tracks scans port inode count none
  | waiting {state : UdpState} {first : Nat} : ¬Settled scans port inode count →
      UnconnectedFrom scans port inode first count →
      (∀ other, UnconnectedFrom scans port inode other count →
        first ≤ other) →
      state.announced = false → state.firstSeenMs = (scans first).now →
      Tracks scans port inode count (some state)
  | announced {state : UdpState} : Settled scans port inode count →
      state.announced = true → Tracks scans port inode count (some state)

theorem tracks_zero : Tracks scans port inode 0 none := by
  refine .absent ?_ ?_
  · intro settled
    obtain ⟨_, _, _, bound, _⟩ := settled
    omega
  · intro first unconnected
    exact absurd unconnected.1 (by omega)

theorem renew_identity (renewed : renew previous now socket = some state) :
    state.port = socket.port ∧ state.inode = socket.inode := by
  simp only [renew] at renewed
  split at renewed
  · cases renewed
    exact ⟨rfl, rfl⟩
  · split at renewed
    · cases renewed
    · cases renewed
      exact ⟨rfl, rfl⟩

theorem find_of_notHeld (gone : ¬Held scan port inode) :
    find (finish previous scan).1 port inode = none := by
  rw [finish_eq, find, List.find?_eq_none]
  intro state member same
  obtain ⟨socket, known, renewed⟩ := List.mem_filterMap.mp member
  obtain ⟨samePort, sameInode⟩ := renew_identity renewed
  simp only [decide_eq_true_eq] at same
  exact gone ⟨socket, known, samePort.symm.trans same.1, sameInode.symm.trans same.2⟩

theorem find_filterMap_renew {sockets : List UdpSocket}
    (distinct : sockets.Pairwise fun first second =>
      (first.port, first.inode) ≠ (second.port, second.inode))
    (member : socket ∈ sockets) :
    find (sockets.filterMap (renew previous now)) socket.port socket.inode =
      renew previous now socket := by
  induction sockets with
  | nil => cases member
  | cons head rest induction =>
    obtain ⟨apart, distinct⟩ := List.pairwise_cons.mp distinct
    rw [List.filterMap_cons]
    rcases List.mem_cons.mp member with rfl | later
    · cases renewed : renew previous now socket with
      | none =>
        simp only [find, List.find?_eq_none]
        intro state known same
        obtain ⟨other, inRest, other_renewed⟩ :=
          List.mem_filterMap.mp known
        obtain ⟨samePort, sameInode⟩ := renew_identity other_renewed
        simp only [decide_eq_true_eq] at same
        apply apart other inRest
        rw [← samePort, ← sameInode, same.1, same.2]
      | some state =>
        exact List.find?_cons_of_pos (decide_eq_true (renew_identity renewed))
    · cases renewed : renew previous now head with
      | none => exact induction distinct later
      | some state =>
        refine (List.find?_cons_of_neg ?_).trans (induction distinct later)
        obtain ⟨samePort, sameInode⟩ := renew_identity renewed
        simp only [decide_eq_true_eq]
        intro same
        apply apart socket later
        rw [← samePort, ← sameInode, same.1, same.2]

theorem not_settled_succ (before : ¬Settled scans port inode count)
    (short : ∀ first, UnconnectedFrom scans port inode first (count + 1) →
      (scans count).now.toNat - (scans first).now.toNat < udpSettleMs.toNat) :
    ¬Settled scans port inode (count + 1) := by
  intro settled
  rcases (settled_succ.mp settled).2 with old | recent
  · exact before old
  · obtain ⟨first, unconnected, late⟩ := recent
    exact absurd late (Nat.not_le.mpr (short first unconnected))

theorem tracks_connected (before : ¬Settled scans port inode count)
    (connected : ¬Unconnected (scans count) port inode) :
    Tracks scans port inode (count + 1) none := by
  have none_from : ∀ first, ¬UnconnectedFrom scans port inode first (count + 1) :=
    fun first unconnected =>
      connected (unconnectedFrom_succ.mp unconnected).1
  exact .absent (not_settled_succ before fun first unconnected =>
    absurd unconnected (none_from first)) none_from

theorem Ordinary.tracks_unconnected (ordinary : Ordinary scans)
    (before : ¬Settled scans port inode count)
    (unconnected : UnconnectedFrom scans port inode first (count + 1))
    (least : ∀ other, UnconnectedFrom scans port inode other (count + 1) →
      first ≤ other)
    (late : announced = true ↔ udpSettleMs.toNat ≤
      (scans count).now.toNat - (scans first).now.toNat) :
    Tracks scans port inode (count + 1) (some ⟨port, announced, inode, (scans first).now⟩) := by
  cases value : announced with
  | true =>
    refine .announced (settled_succ.mpr ⟨?_, .inr ⟨first, unconnected, ?_⟩⟩)
      rfl
    · exact (unconnectedFrom_succ.mp unconnected).1.held
    · exact late.mp value
  | false =>
    refine .waiting (not_settled_succ before fun other run => ?_) unconnected least rfl rfl
    have early := mt late.mpr (by simp [value])
    have order := ordinary.now_le (least other run)
    omega

theorem late_iff (order : firstSeenMs ≤ now) :
    decide (now - firstSeenMs ≥ udpSettleMs) = true ↔
      udpSettleMs.toNat ≤ now.toNat - firstSeenMs.toNat := by
  rw [decide_eq_true_eq, ge_iff_le, UInt64.le_iff_toNat_le, UInt64.toNat_sub_of_le _ _ order]

theorem Ordinary.unconnected_iff (ordinary : Ordinary scans)
    (member : socket ∈ (scans index).sockets) :
    Unconnected (scans index) socket.port socket.inode ↔ socket.connected = false := by
  constructor
  · intro unconnected
    obtain ⟨other, known, samePort, sameInode, free⟩ := unconnected
    have nodup : ((scans index).sockets.map fun socket =>
        (socket.port, socket.inode)).Nodup :=
      List.pairwise_map.mpr (ordinary.distinct index)
    have equal := List.inj_on_of_nodup_map nodup known member (Prod.ext samePort sameInode)
    rwa [← equal]
  · intro free
    exact ⟨socket, member, rfl, rfl, free⟩

theorem Ordinary.tracks_renew (ordinary : Ordinary scans) (member : socket ∈ (scans count).sockets)
    (tracks : Tracks scans socket.port socket.inode count
      (find (states scans count) socket.port socket.inode)) :
    Tracks scans socket.port socket.inode (count + 1)
      (renew (states scans count) (scans count).now socket) := by
  have free := ordinary.unconnected_iff member
  unfold renew
  generalize find (states scans count) socket.port socket.inode = previous at tracks
  cases tracks with
  | absent before none_from =>
    cases connected : socket.connected with
    | true => exact tracks_connected before (by simp [free, connected])
    | false =>
      have now := free.mpr connected
      refine ordinary.tracks_unconnected before (unconnectedFrom_succ.mpr ⟨now, .inl rfl⟩) ?_
        (late_iff (UInt64.le_refl _))
      intro other run
      rcases (unconnectedFrom_succ.mp run).2 with last | earlier
      · exact last.ge
      · exact absurd earlier (none_from other)
  | @waiting state first before run least waits seen =>
    simp only [Option.any_some, waits, Option.elim_some, seen]
    cases connected : socket.connected with
    | true => exact tracks_connected before (by simp [free, connected])
    | false =>
      have now := free.mpr connected
      have order := ordinary.now_le (Nat.le_of_lt run.1)
      refine ordinary.tracks_unconnected before (unconnectedFrom_succ.mpr ⟨now, .inr run⟩) ?_
        (late_iff (UInt64.le_iff_toNat_le.mpr order))
      intro other otherRun
      rcases (unconnectedFrom_succ.mp otherRun).2 with last | earlier
      · exact last ▸ Nat.le_of_lt run.1
      · exact least other earlier
  | announced settled kept =>
    simp only [Option.any_some, kept]
    exact .announced (settled_succ.mpr ⟨⟨socket, member, rfl, rfl⟩, .inl settled⟩) rfl

theorem Ordinary.tracks (ordinary : Ordinary scans) (port : UInt16) (inode : UInt64) (count : Nat) :
    Tracks scans port inode count (find (states scans count) port inode) := by
  induction count with
  | zero => exact tracks_zero
  | succ count induction =>
    rw [states]
    by_cases held : Held (scans count) port inode
    · obtain ⟨socket, member, rfl, rfl⟩ := held
      rw [finish_eq, find_filterMap_renew (ordinary.distinct count) member]
      exact ordinary.tracks_renew member induction
    · rw [find_of_notHeld held]
      refine .absent (fun settled => held (settled_succ.mp settled).1) ?_
      intro first unconnected
      exact held (unconnectedFrom_succ.mp unconnected).1.held

theorem Tracks.any_announced (tracks : Tracks scans port inode count state) :
    state.any UdpState.announced = true ↔ Settled scans port inode count := by
  cases tracks with
  | absent before _ => simp [before]
  | waiting before _ _ waits _ => simp [before, waits]
  | announced settled kept => simp [settled, kept]

theorem Ordinary.offers_eq (ordinary : Ordinary scans) (index : Nat) :
    offers (states scans index) (scans index) =
      settledListeners scans index := by
  unfold offers settledListeners
  congr 2
  apply List.filter_congr
  intro socket member
  have tracks := ordinary.tracks socket.port socket.inode index
  rw [Bool.eq_iff_iff, (ordinary.tracks_renew member tracks).any_announced]
  exact (@decide_eq_true_iff _ (_)).symm

theorem Ordinary.merged (ordinary : Ordinary scans) (index : Nat) :
    Merged (settledListeners scans index)
      ((offers (states scans index) (scans index)).foldl add []) := by
  rw [ordinary.offers_eq]
  have empty : Merged [] [] := ⟨List.nodup_nil, fun _ => Iff.rfl, by simp⟩
  exact empty.foldl (ordinary.few index)

open Classical in
theorem udp_key_mem_settledListeners (udp : Listener.protocol entry = protocolUdp) :
    entry.key ∈ (settledListeners scans index).map Listener.key ↔
      ∃ socket ∈ (scans index).sockets, socket.port = entry.port ∧
        Settled scans entry.port socket.inode (index + 1) := by
  rw [List.mem_map]
  constructor
  · intro offered
    obtain ⟨offer, member, same⟩ := offered
    obtain ⟨protocol, port⟩ := Listener.key_eq_iff.mp same
    rcases List.mem_append.mp member with tcp | settled
    · obtain ⟨row, _, rfl⟩ := List.mem_map.mp tcp
      have equal : protocolTcp = protocolUdp := protocol.trans udp
      exact absurd equal (by decide)
    · obtain ⟨socket, filtered, rfl⟩ := List.mem_map.mp settled
      obtain ⟨known, holds⟩ := List.mem_filter.mp filtered
      rw [decide_eq_true_eq] at holds
      refine ⟨socket, known, port, ?_⟩
      rwa [← port]
  · intro settled
    obtain ⟨socket, known, port, holds⟩ := settled
    refine ⟨udpListener socket, List.mem_append_right _ ?_,
      Listener.key_eq_iff.mpr ⟨udp.symm, port⟩⟩
    apply List.mem_map_of_mem
    rw [List.mem_filter, decide_eq_true_eq, port]
    exact ⟨known, holds⟩

def manySockets : List UdpSocket :=
  (List.range 65).map fun index =>
    ⟨.ofNat (index + 1), 1, false, .ofNat (index + 1)⟩

def manyScans (index : Nat) : Scan :=
  ⟨[], manySockets, if index = 0 then 0 else 1000⟩

theorem ordinary_manyScans : Ordinary manyScans := by
  refine ⟨?_, ?_, ?_⟩
  · intro index
    exact (by decide +kernel : manySockets.Pairwise fun first second =>
      (first.port, first.inode) ≠ (second.port, second.inode))
  · intro index
    cases index with
    | zero => decide
    | succ index => exact UInt64.le_refl 1000
  · intro index
    have part : (settledListeners manyScans index).Sublist (manySockets.map udpListener) :=
      List.filter_sublist.map _
    have short := (part.map Listener.key).length_le
    have few : (manySockets.map udpListener).length ≤ maxTracked := by decide
    rw [List.length_map, List.length_map] at short
    exact ((List.dedup_sublist _).length_le.trans_eq (List.length_map _)).trans
      (short.trans few)

theorem listed_manyScans : listed (announcement manyScans 1) =
      (manySockets.map udpListener).take maxAnnounced := by
  have added : (offers (states manyScans 1) (manyScans 1)).foldl add [] =
      manySockets.map udpListener := by decide +kernel
  have increasing : (manySockets.map udpListener).Pairwise
      fun first second => decide (first.key ≤ second.key) = true := by
    decide +kernel
  rw [announcement, finish_eq, added, encode, ordered,
    List.mergeSort_of_pairwise increasing, listed_announce]

theorem settled_manyScans : ∃ socket ∈ (manyScans 1).sockets, socket.port = 65 ∧
      Settled manyScans 65 socket.inode 2 := by
  have member : (⟨65, 1, false, 65⟩ : UdpSocket) ∈ manySockets :=
    List.mem_map.mpr ⟨64, by decide, rfl⟩
  refine ⟨⟨65, 1, false, 65⟩, member, rfl, 0, 1, by decide, by decide, ?_, ?_,
    by decide⟩
  · intro index _ _
    exact ⟨_, member, rfl, rfl⟩
  · intro index _ _
    exact ⟨_, member, rfl, rfl, rfl⟩

theorem settled_but_left_out : Ordinary manyScans ∧
      (∃ socket ∈ (manyScans 1).sockets, socket.port = 65 ∧ Settled manyScans 65 socket.inode 2) ∧
      ¬∃ entry ∈ listed (announcement manyScans 1),
        entry.protocol = protocolUdp ∧ entry.port = 65 := by
  refine ⟨ordinary_manyScans, settled_manyScans, ?_⟩
  rw [listed_manyScans]
  decide +kernel

theorem listeners_announced_once_settled (scans : Nat → Scan)
    (ordinary : Ordinary scans) (index : Nat) :
    ∃ entries : List Listener, announcement scans index = announce entries ∧
      listed (announcement scans index) = entries.take maxAnnounced ∧
      (omitted (announcement scans index) ↔ maxAnnounced < entries.length) ∧
      entries.Pairwise (fun first second => first.key < second.key) ∧
      (∀ entry, entry ∈ entries ↔ entry.key ∈ (settledListeners scans index).map Listener.key ∧
          entry.families = offeredFamilies (settledListeners scans index) entry.key) ∧
      ∀ port, (∃ entry ∈ entries, entry.protocol = protocolUdp ∧ entry.port = port) ↔
        ∃ socket ∈ (scans index).sockets, socket.port = port ∧
          Settled scans port socket.inode (index + 1) := by
  have merged := ordinary.merged index
  have encoded : announcement scans index = announce (ordered
      ((offers (states scans index) (scans index)).foldl add [])) := by
    rw [announcement, finish_eq]
    rfl
  refine ⟨_, encoded, ?_, ?_, ordered_increasing merged.nodup, merged.mem_ordered, ?_⟩
  · rw [encoded]
    exact listed_announce _
  · rw [encoded]
    exact omitted_announce _
  · intro port
    constructor
    · intro announced
      obtain ⟨entry, member, udp, rfl⟩ := announced
      exact (udp_key_mem_settledListeners udp).mp ((merged.mem_ordered entry).mp member).1
    · intro settled
      let entry : Listener := ⟨protocolUdp, offeredFamilies (settledListeners scans index)
          (Listener.key ⟨protocolUdp, 0, port⟩), port⟩
      refine ⟨entry, (merged.mem_ordered entry).mpr ⟨?_, rfl⟩, rfl, rfl⟩
      exact (udp_key_mem_settledListeners rfl).mpr settled

theorem settled_in_manyScans : Ordinary manyScans ∧ ∃ entries : List Listener,
      listed (announcement manyScans 1) = entries.take maxAnnounced ∧
      ∃ entry ∈ entries, entry.protocol = protocolUdp ∧ entry.port = 65 := by
  obtain ⟨entries, _, taken, _, _, _, udp⟩ :=
    listeners_announced_once_settled manyScans ordinary_manyScans 1
  exact ⟨ordinary_manyScans, entries, taken, (udp 65).mpr settled_manyScans⟩

end Nvx.Guest.Ingress

import Mathlib.Data.List.Dedup
import Mathlib.Data.List.Sort

namespace Nvx.Guest.Ingress

@[ext]
structure Listener where
  protocol : UInt8
  families : UInt8
  port : UInt16
  deriving DecidableEq

structure UdpSocket where
  port : UInt16
  families : UInt8
  connected : Bool
  inode : UInt64

structure UdpState where
  port : UInt16
  announced : Bool
  inode : UInt64
  firstSeenMs : UInt64

/-- What a scan found: the ports and families of the TCP listeners, the UDP
sockets, and when. -/
structure Scan where
  tcp : List (UInt16 × UInt8)
  sockets : List UdpSocket
  now : UInt64

def protocolTcp : UInt8 := 6

def protocolUdp : UInt8 := 17

def maxAnnounced : Nat := 64

def maxTracked : Nat := 1024

def udpSettleMs : UInt64 := 1000

/-- The families of the first entry of the listener's protocol and port, if there
is one, take those of the listener. -/
def merge (listener : Listener) : List Listener → Option (List Listener)
  | [] => none
  | entry :: rest =>
    if entry.protocol = listener.protocol ∧ entry.port = listener.port then
      some ({ entry with
        families := entry.families ||| listener.families } :: rest)
    else (merge listener rest).map (entry :: ·)

def add (entries : List Listener) (listener : Listener) : List Listener :=
  match merge listener entries with
  | some merged => merged
  | none =>
    if entries.length < maxTracked then entries ++ [listener] else entries

def Listener.key (listener : Listener) : Nat :=
  listener.protocol.toNat * 65536 + listener.port.toNat

def bigEndian (value : Nat) : List UInt8 :=
  [.ofNat (value / 256), .ofNat value]

def announce (entries : List Listener) : List UInt8 :=
  let count := min entries.length maxAnnounced
  let flags : UInt8 := if maxAnnounced < entries.length then 1 else 0
  [78, 86, 88, 76, 1, flags] ++ bigEndian count ++ (entries.take count).flatMap fun entry =>
      [entry.protocol, entry.families] ++ bigEndian entry.port.toNat

def ordered (entries : List Listener) : List Listener :=
  entries.mergeSort fun first second => first.key ≤ second.key

def encode (entries : List Listener) : List UInt8 :=
  announce (ordered entries)

def find (states : List UdpState) (port : UInt16) (inode : UInt64) :
    Option UdpState :=
  states.find? fun state => state.port = port ∧ state.inode = inode

/-- The state of a socket after a scan, unless it is left out. -/
def renew (states : List UdpState) (now : UInt64) (socket : UdpSocket) :
    Option UdpState :=
  let previous := find states socket.port socket.inode
  let firstSeenMs := previous.elim now UdpState.firstSeenMs
  if previous.any UdpState.announced then
    some ⟨socket.port, true, socket.inode, firstSeenMs⟩
  else if socket.connected then none
  else some ⟨socket.port, now - firstSeenMs ≥ udpSettleMs, socket.inode, firstSeenMs⟩

def udpListener (socket : UdpSocket) : Listener :=
  ⟨protocolUdp, socket.families, socket.port⟩

def settle (states : List UdpState) (now : UInt64)
    (result : List UdpState × List Listener) (socket : UdpSocket) :
    List UdpState × List Listener :=
  match renew states now socket with
  | none => result
  | some state => (result.1 ++ [state],
      if state.announced then add result.2 (udpListener socket) else result.2)

def tcpListeners (scan : Scan) : List Listener :=
  scan.tcp.map fun (port, families) => ⟨protocolTcp, families, port⟩

def finish (states : List UdpState) (scan : Scan) : List UdpState × List UInt8 :=
  let listeners := (tcpListeners scan).foldl add []
  let (next, listeners) :=
    scan.sockets.foldl (settle states scan.now) ([], listeners)
  (next, encode listeners)

variable {entries offered : List Listener}

theorem Listener.key_eq_iff {first second : Listener} :
    first.key = second.key ↔
      first.protocol = second.protocol ∧ first.port = second.port := by
  have one := first.port.toNat_lt
  have other := second.port.toNat_lt
  simp only [key, ← UInt8.toNat_inj, ← UInt16.toNat_inj]
  omega

def offeredFamilies (offered : List Listener) (key : Nat) : UInt8 :=
  (offered.filter (·.key = key)).foldl (fun families offer =>
    families ||| offer.families) 0

/-- The entries have the keys and the families of what was offered. -/
structure Merged (offered entries : List Listener) : Prop where
  nodup : (entries.map Listener.key).Nodup
  keys : ∀ key, key ∈ entries.map Listener.key ↔ key ∈ offered.map Listener.key
  families : ∀ entry ∈ entries, entry.families = offeredFamilies offered entry.key

def taking (offer entry : Listener) : Listener :=
  if entry.key = offer.key then
    { entry with families := entry.families ||| offer.families }
  else entry

theorem key_taking (offer entry : Listener) : (taking offer entry).key = entry.key := by
  unfold taking
  split <;> rfl

theorem map_key_taking (offer : Listener) (entries : List Listener) :
    (entries.map (taking offer)).map Listener.key = entries.map Listener.key := by
  rw [List.map_map]
  exact List.map_congr_left fun entry _ => key_taking offer entry

theorem map_taking_of_notMem (absent : offer.key ∉ entries.map Listener.key) :
    entries.map (taking offer) = entries := by
  apply List.map_congr_left (g := id) _ |>.trans (List.map_id _)
  intro entry member
  refine if_neg fun same => absent ?_
  rw [← same]
  exact List.mem_map_of_mem member

theorem merge_eq {offer : Listener} (nodup : (entries.map Listener.key).Nodup) :
    merge offer entries = if offer.key ∈ entries.map Listener.key then
      some (entries.map (taking offer)) else none := by
  induction entries with
  | nil => rfl
  | cons entry rest induction =>
    obtain ⟨fresh, nodup⟩ := List.nodup_cons.mp nodup
    rw [merge]
    by_cases same : entry.key = offer.key
    · rw [if_pos (Listener.key_eq_iff.mp same), if_pos (by simp [same]),
        List.map_cons, map_taking_of_notMem (by rwa [← same]), taking,
        if_pos same]
    · rw [if_neg (mt Listener.key_eq_iff.mpr same), induction nodup,
        List.map_cons, List.map_cons, taking, if_neg same]
      by_cases member : offer.key ∈ rest.map Listener.key
      · rw [if_pos member, if_pos (List.mem_cons_of_mem _ member)]
        rfl
      · rw [if_neg member, if_neg (by simp [Ne.symm same, member])]
        rfl

theorem offeredFamilies_concat (offered : List Listener) (offer : Listener) (key : Nat) :
    offeredFamilies (offered ++ [offer]) key =
      if offer.key = key then offeredFamilies offered key ||| offer.families
      else offeredFamilies offered key := by
  unfold offeredFamilies
  rw [List.filter_append]
  by_cases same : offer.key = key
  · simp [same]
  · simp [same]

theorem add_eq (nodup : (entries.map Listener.key).Nodup)
    (room : offer.key ∉ entries.map Listener.key → entries.length < maxTracked) :
    add entries offer = if offer.key ∈ entries.map Listener.key then
      entries.map (taking offer) else entries ++ [offer] := by
  rw [add, merge_eq nodup]
  by_cases member : offer.key ∈ entries.map Listener.key
  · rw [if_pos member, if_pos member]
  · rw [if_neg member, if_neg member]
    exact if_pos (room member)

theorem offeredFamilies_of_notMem (absent : key ∉ offered.map Listener.key) :
    offeredFamilies offered key = 0 := by
  have empty : offered.filter (·.key = key) = [] := by
    rw [List.filter_eq_nil_iff]
    intro offer member same
    exact absent (List.mem_map.mpr ⟨offer, member, of_decide_eq_true same⟩)
  rw [offeredFamilies, empty]
  rfl

theorem Merged.families_concat (merged : Merged offered entries)
    (offer : Listener) (member : entry ∈ entries) :
    (taking offer entry).families = offeredFamilies (offered ++ [offer]) entry.key := by
  rw [offeredFamilies_concat, ← merged.families entry member, taking]
  by_cases same : entry.key = offer.key
  · rw [if_pos same, if_pos same.symm]
  · rw [if_neg same, if_neg (Ne.symm same)]

theorem Merged.add (merged : Merged offered entries)
    (room : offer.key ∉ entries.map Listener.key → entries.length < maxTracked) :
    Merged (offered ++ [offer]) (add entries offer) := by
  rw [add_eq merged.nodup room]
  by_cases member : offer.key ∈ entries.map Listener.key
  · rw [if_pos member]
    refine ⟨by rw [map_key_taking]; exact merged.nodup, ?_, ?_⟩
    · intro key
      rw [map_key_taking, List.map_append, List.mem_append, ← merged.keys]
      refine ⟨Or.inl, fun either => either.elim id fun last => ?_⟩
      rwa [List.mem_singleton.mp last]
    · intro entry taken
      obtain ⟨old, known, rfl⟩ := List.mem_map.mp taken
      rw [key_taking]
      exact merged.families_concat offer known
  · rw [if_neg member]
    refine ⟨?_, ?_, ?_⟩
    · rw [List.map_append, List.nodup_append]
      refine ⟨merged.nodup, List.nodup_singleton _, ?_⟩
      intro key known last new same
      rw [List.map_singleton, List.mem_singleton] at new
      exact member (by rwa [← new, ← same])
    · intro key
      rw [List.map_append, List.map_append, List.mem_append, List.mem_append, merged.keys]
    · intro entry either
      rcases List.mem_append.mp either with known | last
      · rw [← merged.families_concat offer known, taking, if_neg]
        intro same
        exact member (same ▸ List.mem_map_of_mem known)
      · rw [List.mem_singleton.mp last, offeredFamilies_concat, if_pos rfl,
          offeredFamilies_of_notMem (mt (merged.keys _).mpr member)]
        exact (UInt8.zero_or).symm

theorem Merged.foldl (merged : Merged seen entries)
    (few : ((seen ++ offered).map Listener.key).dedup.length ≤ maxTracked) :
    Merged (seen ++ offered) (offered.foldl Ingress.add entries) := by
  induction offered generalizing seen entries with
  | nil =>
    rw [List.append_nil]
    exact merged
  | cons offer rest induction =>
    have split : seen ++ offer :: rest = seen ++ [offer] ++ rest := by simp
    rw [split] at few ⊢
    refine induction (merged.add fun fresh => ?_) few
    -- The keys of the table and the new one are all offered.
    have distinct : (offer.key :: entries.map Listener.key).Nodup :=
      List.nodup_cons.mpr ⟨fresh, merged.nodup⟩
    have offered : offer.key :: entries.map Listener.key ⊆
        ((seen ++ [offer] ++ rest).map Listener.key).dedup := by
      intro key either
      rw [List.mem_dedup, List.map_append, List.map_append]
      rcases List.mem_cons.mp either with rfl | known
      · simp
      · exact List.mem_append_left _ (List.mem_append_left _ ((merged.keys key).mp known))
    have bound := (List.subperm_of_subset distinct offered).length_le
    rw [List.length_cons, List.length_map] at bound
    omega

def offers (states : List UdpState) (scan : Scan) : List Listener :=
  tcpListeners scan ++ (scan.sockets.filter fun socket =>
    (renew states scan.now socket).any UdpState.announced).map udpListener

theorem foldl_settle (states : List UdpState) (now : UInt64)
    (sockets : List UdpSocket) (result : List UdpState × List Listener) :
    sockets.foldl (settle states now) result = (result.1 ++ sockets.filterMap (renew states now),
        ((sockets.filter fun socket =>
          (renew states now socket).any UdpState.announced).map
            udpListener).foldl add result.2) := by
  induction sockets generalizing result with
  | nil => simp
  | cons socket rest induction =>
    rw [List.foldl_cons, induction, settle]
    cases renewed : renew states now socket with
    | none => simp [renewed]
    | some state =>
      cases announced : state.announced <;> simp [renewed, announced]

theorem finish_eq (states : List UdpState) (scan : Scan) : finish states scan =
      (scan.sockets.filterMap (renew states scan.now),
        encode ((offers states scan).foldl add [])) := by
  rw [finish, foldl_settle, offers, List.foldl_append]
  rfl

theorem ordered_increasing (nodup : (entries.map Listener.key).Nodup) : (ordered entries).Pairwise
      fun first second => first.key < second.key := by
  have permuted : (ordered entries).Perm entries := List.mergeSort_perm _ _
  have distinct : (ordered entries).Pairwise fun first second => first.key ≠ second.key :=
    List.pairwise_map.mp ((permuted.map Listener.key).nodup_iff.mpr nodup)
  have increasing : (ordered entries).Pairwise
      fun first second => decide (first.key ≤ second.key) = true := by
    apply List.pairwise_mergeSort
    · intro first second third
      simp only [decide_eq_true_eq]
      exact Nat.le_trans
    · intro first second
      simp only [Bool.or_eq_true, decide_eq_true_eq]
      exact Nat.le_total _ _
  refine (increasing.and distinct).imp fun both => ?_
  exact Nat.lt_of_le_of_ne (of_decide_eq_true both.1) both.2

theorem Merged.mem_ordered (merged : Merged offered entries) (entry : Listener) :
    entry ∈ ordered entries ↔ entry.key ∈ offered.map Listener.key ∧
      entry.families = offeredFamilies offered entry.key := by
  rw [ordered, List.mem_mergeSort, ← merged.keys]
  constructor
  · intro member
    exact ⟨List.mem_map_of_mem member, merged.families entry member⟩
  · intro both
    obtain ⟨known, member, same⟩ := List.mem_map.mp both.1
    obtain ⟨protocol, port⟩ := Listener.key_eq_iff.mp same
    have families : known.families = entry.families := by
      rw [merged.families known member, same, ← both.2]
    exact Listener.ext protocol families port ▸ member

def parse : List UInt8 → List Listener
  | protocol :: families :: high :: low :: rest =>
    ⟨protocol, families, .ofNat (high.toNat * 256 + low.toNat)⟩ :: parse rest
  | _ => []

/-- The listeners that an announcement lists after its header. -/
def listed (payload : List UInt8) : List Listener := parse (payload.drop 8)

def omitted (payload : List UInt8) : Prop := payload[5]? = some 1

theorem parse_entries (entries : List Listener) : parse (entries.flatMap fun entry =>
      [entry.protocol, entry.families] ++ bigEndian entry.port.toNat) =
      entries := by
  induction entries with
  | nil => rfl
  | cons entry rest induction =>
    rw [List.flatMap_cons]
    refine congrArg₂ List.cons (Listener.ext rfl rfl ?_) induction
    have bound := entry.port.toNat_lt
    apply UInt16.toNat_inj.mp
    simp only [UInt16.toNat_ofNat', UInt8.toNat_ofNat']
    omega

theorem listed_announce (entries : List Listener) :
    listed (announce entries) = entries.take maxAnnounced := by
  have taken : entries.take (min entries.length maxAnnounced) =
      entries.take maxAnnounced := by
    rw [List.take_eq_take_iff]
    omega
  rw [← taken]
  exact parse_entries _

theorem omitted_announce (entries : List Listener) :
    omitted (announce entries) ↔ maxAnnounced < entries.length := by
  by_cases more : maxAnnounced < entries.length
  · simp [omitted, announce, more]
  · simp [omitted, announce, more]

end Nvx.Guest.Ingress

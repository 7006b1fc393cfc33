import DesPwd.L1Encoding.BasicPacket
import DesPwd.L2Machine.ILink
import DesPwd.L2Machine.NoListHash

/-!
# The agents known to slog_mtreport_server

A table of `MtClientInfo` in shared memory, with the clients in use linked into
a list of the system configuration. `getMtClientInfo` finds the client of a
request, or adds it on its first hello; `clearOldMtClientInfo` is the cleanup
that the main loop calls.

`IsClientList shm l`: the list holds the clients `l`, and counts them;
`ClientInv` adds that they are in use.

* `clear_keeps_iff`: the cleanup leaves exactly the valid clients in the list if
  and only if all clients but possibly the last one are valid, or none is.
* `clear_loses_client`: one expired client in front of a valid one, and both
  are gone.
* `one_client_each`: whatever happens to the list, a machine has one client.

Source files without a directory are in `slog_mtreport_server/`.
-/
namespace DesPwd.L4.MtClient

open Bytes Run L1.BasicPacket L2.ILink L2.SharedHash L2.NoListHash List

/-- mirrors lib/mtagent_api_open/supper_log.h:1844-1878; `iPreIndex` and
`iNextIndex` are `Shm.links` -/
structure MtClientInfo where
  dwFirstHelloTime : Nat
  dwLastHelloTime : Nat
  dwAddress : Nat
  wBasePort : Nat
  dwAgentClientAddress : Nat
  iMachineId : Int
  bEnableEncryptData : Nat
  sRandKey : Bytes

/-- A node of zeroed shared memory. -/
def MtClientInfo.zero : MtClientInfo := ⟨0, 0, 0, 0, 0, 0, 0, []⟩

/-- `MT_CLIENT_NODE_COUNT` -/
def mtClientNodeCount : Nat := 10000

/-- The client table and the fields of `MtSystemConfig` that head its list. -/
structure Shm where
  rows : Rows
  few : rows.dwNodeNums.sum ≤ mtClientNodeCount
  client : Int → MtClientInfo
  links : Links
  /-- `iMtClientListIndexStart` and `iMtClientListIndexEnd` -/
  list : Head
  wCurClientCount : Nat

/-- `m_stNow.tv_sec` and the hello settings of `MtSystemConfig`. -/
structure Clock where
  tvSec : Nat
  wHelloRetryTimes : Nat
  wHelloPerTimeSec : Nat

/-- mirrors supper_log.h:2029-2038 -/
def isMtClientValid (c : Clock) (m : MtClientInfo) : Bool :=
  !(m.iMachineId = 0 ∨
    (m.dwLastHelloTime + 3 * c.wHelloRetryTimes * c.wHelloPerTimeSec) % 4294967296 ≤ c.tvSec)

def Shm.setClient (shm : Shm) (i : Int) (m : MtClientInfo) : Shm :=
  { shm with client := Function.update shm.client i m }

/-! ## Finding and adding a client -/

/-- The other tables a request is looked up in. -/
structure ClientCtx where
  clock : Clock
  /-- `slog.GetMachineInfo(ip)`: the machine's id -/
  machineByIp : Nat → Option Int
  /-- `slog.GetMachineInfo(id)`: the machine's addresses -/
  machineById : Int → Option (List Nat)
  /-- the machine's id from the database, which adds a new machine -/
  dbMachineId : Except Err { id : Int // 0 < id }

/-- What a packet says about its client. -/
structure ClientReq where
  bIsFirstHello : Bool
  /-- the command is `CMD_MONI_SEND_HELLO` -/
  isHello : Bool
  iRemoteMachineId : Int
  iMtClientIndex : Int
  dwAgentClientIp : Nat

/-- The machine that the server's table has for a request; mirrors
udp_sock.cpp:238-267 -/
def knownMachineId (c : ClientCtx) (r : ClientReq) : Except Err Int :=
  if !r.bIsFirstHello && (r.iRemoteMachineId ≤ 0 || r.iMtClientIndex < 0) then .error .invalidPacket
  else if (r.isHello || r.bIsFirstHello) && r.dwAgentClientIp = 0 then .error .invalidPacket
  else if r.iRemoteMachineId ≤ 0 then
    .ok ((c.machineByIp r.dwAgentClientIp).getD r.iRemoteMachineId)
  else match c.machineById r.iRemoteMachineId with
  | none => .error .notFindMachine
  | some ips =>
    if r.isHello && !ips.contains r.dwAgentClientIp then .error .notFindMachine
    else .ok r.iRemoteMachineId

/-- A machine without an id is looked up in the database, or added to it;
mirrors udp_sock.cpp:273-332 -/
def remoteMachineId (c : ClientCtx) (r : ClientReq) : Except Err Int :=
  match knownMachineId c r with
  | .error e => .error e
  | .ok id => if id ≤ 0 ∧ r.bIsFirstHello then c.dbMachineId.map (·.1) else .ok id

/-- mirrors udp_sock.cpp:353-363 -/
def linkFirst (shm : Shm) (idx : Int) : Shm :=
  if shm.wCurClientCount = 0 then
    let (list, links) := setFirst shm.links idx
    { shm with list := list, links := links, wCurClientCount := 1 }
  else
    let (list, links) := insertFirst shm.list shm.links shm.list.s idx
    { shm with list := list, links := links, wCurClientCount := (shm.wCurClientCount + 1) % 65536 }

/-- mirrors udp_sock.cpp:351-363 -/
def insertClient (shm : Shm) (idx iMachineId : Int) (dwAgentClientIp : Nat) : Shm :=
  linkFirst (shm.setClient idx { shm.client idx with
    dwAgentClientAddress := dwAgentClientIp
    iMachineId := iMachineId }) idx

/-- mirrors udp_sock.cpp:193-204 -/
def initMtClientInfo (shm : Shm) (idx : Int) (dwCurrentTime dwAddress wBasePort : Nat) : Shm :=
  shm.setClient idx { shm.client idx with
    dwLastHelloTime := dwCurrentTime
    dwFirstHelloTime := dwCurrentTime
    dwAddress := dwAddress
    wBasePort := wBasePort }

/-- `slog.GetMtClientInfo(iMachineId, &isFind)`;
mirrors lib/mtagent_api_open/supper_log.cpp:1136-1154 -/
def searchClient (shm : Shm) (iMachineId : Int) : Option (Nat × Bool) :=
  hashTableSearchEx shm.rows (fun i => (shm.client i).iMachineId = iMachineId)
    (fun i => (shm.client i).iMachineId = 0) (iMachineId % 4294967296).toNat

/-- The index of the client of a request; `none` reads a node outside the
table; mirrors udp_sock.cpp:334-376 -/
def findClient (c : ClientCtx) (shm : Shm) (r : ClientReq) (iMachineId : Int) :
    Option (Shm × Except Err Int) :=
  let i := r.iMtClientIndex
  if 0 ≤ i ∧ (shm.rows.dwNodeNums.sum : Int) ≤ i then none
  else if 0 ≤ i ∧ (shm.client i).iMachineId = iMachineId ∧ isMtClientValid c.clock (shm.client i) then
    some (shm, .ok i)
  else match searchClient shm iMachineId with
  | none => some (shm, .error .notFindMachine)
  | some (idx, true) => some (shm, .ok idx)
  | some (idx, false) =>
    if !r.bIsFirstHello then some (shm, .error .invalidPacket)
    else some (insertClient shm idx iMachineId r.dwAgentClientIp, .ok idx)

/-- mirrors udp_sock.cpp:233-377 -/
def getMtClientInfo (c : ClientCtx) (shm : Shm) (r : ClientReq) : Option (Shm × Except Err Int) :=
  match remoteMachineId c r with
  | .error e => some (shm, .error e)
  | .ok iMachineId => findClient c shm r iMachineId

/-- The list in shared memory holds the clients `l`, all in use. -/
structure ClientInv (shm : Shm) (l : List Int) : Prop where
  counted : Counted shm.list shm.links shm.wCurClientCount l
  used : ∀ i ∈ l, (shm.client i).iMachineId ≠ 0
  inTable : ∀ i ∈ l, i < shm.rows.dwNodeNums.sum

section
variable {c : ClientCtx} {shm shm' : Shm} {r : ClientReq} {l : List Int}

theorem ClientInv.length_le (h : ClientInv shm l) : l.length ≤ mtClientNodeCount := by
  have hsub : l ⊆ (List.range shm.rows.dwNodeNums.sum).map Int.ofNat := by
    intro i hi
    have h0 := h.counted.nonneg hi
    have h1 := h.inTable i hi
    exact mem_map.mpr ⟨i.toNat, mem_range.mpr (by omega), Int.toNat_of_nonneg h0⟩
  have hle := (subperm_of_subset h.counted.nodup hsub).length_le
  rw [length_map, length_range] at hle
  exact le_trans hle shm.few

theorem linkFirst_frame (shm : Shm) (idx : Int) :
    (linkFirst shm idx).client = shm.client ∧ (linkFirst shm idx).rows = shm.rows := by
  unfold linkFirst
  split <;> exact ⟨rfl, rfl⟩

theorem linkFirst_counted {idx : Int}
    (h : Counted shm.list shm.links shm.wCurClientCount l) (hidx : 0 ≤ idx) (hn : idx ∉ l)
    (hlen : l.length < 65535) :
    Counted (linkFirst shm idx).list (linkFirst shm idx).links (linkFirst shm idx).wCurClientCount
      (idx :: l) := by
  have hc := h.cons hidx hn
  have hcount := h.count_eq
  unfold linkFirst
  by_cases h0 : shm.wCurClientCount = 0
  · rw [h0] at hc
    rw [if_pos h0]
    exact hc
  · rw [if_neg h0] at hc
    rw [if_neg h0]
    rwa [Nat.mod_eq_of_lt (by omega)]

variable (h : ClientInv shm l)
include h

/-- A free node becomes the first client. -/
theorem ClientInv.insertClient (idx : Nat) (id : Int) (ip : Nat)
    (hidx : idx < shm.rows.dwNodeNums.sum) (hfree : (shm.client idx).iMachineId = 0)
    (hid : id ≠ 0) : ClientInv (insertClient shm idx id ip) (idx :: l) := by
  have hn : (idx : Int) ∉ l := fun hm => h.used _ hm hfree
  have hlen := h.length_le
  refine ⟨?_, ?_, ?_⟩
  · refine linkFirst_counted h.counted (Int.natCast_nonneg idx) hn ?_
    simp only [mtClientNodeCount] at hlen
    omega
  · intro i hi
    rw [MtClient.insertClient, (linkFirst_frame _ _).1]
    simp only [Shm.setClient, Function.update_apply]
    split
    · exact hid
    · rename_i hne
      exact h.used i ((mem_cons.mp hi).resolve_left hne)
  · intro i hi
    rw [MtClient.insertClient, (linkFirst_frame _ _).2]
    rcases mem_cons.mp hi with rfl | hi
    · exact Int.ofNat_lt.mpr hidx
    · exact h.inTable i hi

/-- Writing to a client's fields keeps the list, as long as it stays in use. -/
theorem ClientInv.setClient {i : Int} {m : MtClientInfo}
    (hm : i ∈ l → m.iMachineId ≠ 0) : ClientInv (shm.setClient i m) l := by
  refine ⟨h.counted, fun j hj => ?_, h.inTable⟩
  simp only [Shm.setClient, Function.update_apply]
  split
  · rename_i hji
    exact hm (hji ▸ hj)
  · exact h.used j hj

theorem ClientInv.initMtClientInfo (i : Int) (t a p : Nat) :
    ClientInv (initMtClientInfo shm i t a p) l :=
  h.setClient fun hi => h.used i hi

end

/-! ## The cleanup -/

/-- mirrors mtreport_server.cpp:171-183 -/
def deleteClient (shm : Shm) (idx : Int) : Shm :=
  let (list, links) := deleteNode shm.list shm.links idx (ptr (shm.links.p idx))
    (ptr (shm.links.n idx))
  { shm with
    list := list
    links := links
    client := Function.update shm.client idx { shm.client idx with iMachineId := 0 } }

/-- The variables of the loop. -/
structure Sweep where
  shm : Shm
  idx : Int
  wClientCount : Nat

/-- The body of the loop: `idx` only moves on over a valid client;
mirrors mtreport_server.cpp:165-184 -/
def sweepClient (c : Clock) (s : Sweep) : Sweep :=
  if isMtClientValid c (s.shm.client s.idx) then
    { s with idx := s.shm.links.n s.idx, wClientCount := s.wClientCount + 1 }
  else { s with shm := deleteClient s.shm s.idx }

/-- The rounds that are left; mirrors mtreport_server.cpp:164-185 -/
def sweep (c : Clock) : Nat → Sweep → Sweep
  | 0, s => s
  | n + 1, s => if 0 ≤ s.idx then sweep c n (sweepClient c s) else s

/-- `s_dwLastClearTime` and the table afterwards;
mirrors mtreport_server.cpp:154-190 -/
def clearOldMtClientInfo (c : Clock) (dwLastClearTime : Nat) (shm : Shm) : Nat × Shm :=
  if c.tvSec ≤ (dwLastClearTime + 6 * 3600) % 4294967296 then (dwLastClearTime, shm)
  else
    let s := sweep c shm.wCurClientCount ⟨shm, shm.list.s, 0⟩
    (c.tvSec % 4294967296, { s.shm with wCurClientCount := s.wClientCount })

section
variable {c : Clock} {shm : Shm} {l l0 l1 l2 : List Int} {i : Int}

/-- The loop walks over a row of valid clients. -/
theorem sweep_valid (n : Nat) :
    ∀ {l0 l1} count, IsList shm.list shm.links (l0 ++ (l1 ++ l2)) →
      (∀ i ∈ l1, isMtClientValid c (shm.client i) = true) →
      sweep c (l1.length + n) ⟨shm, (l1 ++ l2).head?.getD (-1), count⟩ =
        sweep c n ⟨shm, l2.head?.getD (-1), count + l1.length⟩
  | _, [], count, _, _ => by rw [nil_append, length_nil, zero_add, add_zero]
  | l0, i :: l1, count, hl, hv => by
    have hi : 0 ≤ i := hl.nonneg i (by simp)
    have hnext : shm.links.n i = (l1 ++ l2).head?.getD (-1) := hl.n_eq
    have hl' : IsList shm.list shm.links ((l0 ++ [i]) ++ (l1 ++ l2)) := by
      rwa [append_assoc]
    have ih := sweep_valid n (count + 1) hl' fun j hj => hv j (mem_cons_of_mem _ hj)
    rw [length_cons, add_right_comm, sweep]
    simp only [cons_append, head?_cons, Option.getD_some, if_pos hi, sweepClient,
      if_pos (hv i mem_cons_self), hnext]
    rw [ih, add_assoc, add_comm 1]

/-- A node that the loop has just deleted: it stays there. -/
structure Deleted (s : Sweep) : Prop where
  idx_nonneg : 0 ≤ s.idx
  free : (s.shm.client s.idx).iMachineId = 0
  p_eq : s.shm.links.p s.idx = -1
  n_eq : s.shm.links.n s.idx = -1

variable {s : Sweep}

theorem sweepClient_invalid (h : isMtClientValid c (s.shm.client s.idx) = false) :
    sweepClient c s = { s with shm := deleteClient s.shm s.idx } := by
  rw [sweepClient, h, if_neg Bool.false_ne_true]

theorem deleted_deleteClient {idx : Int} {count : Nat} (h : 0 ≤ idx) :
    Deleted ⟨deleteClient shm idx, idx, count⟩ := by
  refine ⟨h, ?_, deleteNode_p _ _ _ _ _, deleteNode_n _ _ _ _ _⟩
  show (Function.update shm.client idx _ idx).iMachineId = 0
  rw [Function.update_self]

theorem Deleted.round (h : Deleted s) (n : Nat) :
    sweep c (n + 1) s = sweep c n { s with shm := deleteClient s.shm s.idx } := by
  rw [sweep, if_pos h.idx_nonneg, sweepClient_invalid (by simp [isMtClientValid, h.free])]

/-- From a deleted node, every further round deletes it again. -/
theorem Deleted.sweep (h : Deleted s) (n : Nat) :
    (sweep c (n + 1) s).shm.list = ⟨-1, -1⟩ ∧ (sweep c (n + 1) s).wClientCount = s.wClientCount := by
  induction n generalizing s with
  | zero =>
    rw [h.round]
    exact ⟨by simp [MtClient.sweep, deleteClient, deleteNode, ptr, h.p_eq, h.n_eq], rfl⟩
  | succ n ih =>
    rw [h.round]
    exact ih (deleted_deleteClient h.idx_nonneg)

/-- The list in shared memory holds the clients `l`, and counts them. -/
def IsClientList (shm : Shm) (l : List Int) : Prop :=
  Counted shm.list shm.links shm.wCurClientCount l

/-- The table after the loop over a list with an invalid client `i` behind
valid ones. -/
theorem sweep_first_invalid (n : Nat) (hl : IsList shm.list shm.links (l1 ++ i :: l2))
    (hv : ∀ j ∈ l1, isMtClientValid c (shm.client j) = true)
    (hi : isMtClientValid c (shm.client i) = false) :
    sweep c (l1.length + (n + 1)) ⟨shm, shm.list.s, 0⟩ =
      sweep c n ⟨deleteClient shm i, i, l1.length⟩ := by
  have hi0 : 0 ≤ i := hl.nonneg i (by simp)
  have hs : shm.list.s = (l1 ++ i :: l2).head?.getD (-1) := by
    cases l1 <;> exact hl.start_eq
  have hl' : IsList shm.list shm.links ([] ++ (l1 ++ i :: l2)) := hl
  rw [hs, sweep_valid (n + 1) 0 hl' hv, zero_add, sweep, head?_cons, Option.getD_some,
    if_pos hi0, sweepClient_invalid hi]

theorem sweep_all_valid (hl : IsClientList shm l)
    (hv : ∀ j ∈ l, isMtClientValid c (shm.client j) = true) :
    ∃ idx, sweep c shm.wCurClientCount ⟨shm, shm.list.s, 0⟩ = ⟨shm, idx, l.length⟩ := by
  rcases l with _ | ⟨i, l⟩
  · rw [hl.count_eq]
    exact ⟨shm.list.s, rfl⟩
  have hil := hl.isList (cons_ne_nil i l)
  have hil' : IsList shm.list shm.links ([] ++ (i :: l ++ [])) := by
    rwa [append_nil]
  have hsw := sweep_valid 0 0 hil' hv
  rw [append_nil, head?_cons, Option.getD_some, add_zero, zero_add] at hsw
  rw [hl.count_eq, hil.start_eq, hsw]
  exact ⟨-1, rfl⟩

/-- An invalid client has others behind it: the list is emptied. -/
theorem sweep_inner_invalid {j : Int} (hl : IsClientList shm (l1 ++ i :: j :: l2))
    (hv : ∀ j ∈ l1, isMtClientValid c (shm.client j) = true)
    (hi : isMtClientValid c (shm.client i) = false) :
    (sweep c shm.wCurClientCount ⟨shm, shm.list.s, 0⟩).shm.list = ⟨-1, -1⟩ ∧
      (sweep c shm.wCurClientCount ⟨shm, shm.list.s, 0⟩).wClientCount = l1.length := by
  have hil := hl.isList (append_ne_nil_of_right_ne_nil l1 (cons_ne_nil i _))
  have hi0 : 0 ≤ i := hil.nonneg i (by simp)
  have hlen : shm.wCurClientCount = l1.length + (l2.length + 1 + 1) := by
    rw [hl.count_eq, length_append, length_cons, length_cons]
  rw [hlen, sweep_first_invalid (l2.length + 1) hil hv hi]
  exact (deleted_deleteClient hi0).sweep l2.length

/-- **The cleanup.** Past its time gate it leaves exactly the valid clients if
and only if only the last client may be invalid, or all are. -/
theorem clear_keeps_iff (c : Clock) (dwLastClearTime : Nat) (shm : Shm) (l : List Int)
    (hl : IsClientList shm l)
    (hgate : (dwLastClearTime + 6 * 3600) % 4294967296 < c.tvSec) :
    IsClientList (clearOldMtClientInfo c dwLastClearTime shm).2
        (l.filter fun i => isMtClientValid c (shm.client i)) ↔
      (∀ i ∈ l.dropLast, isMtClientValid c (shm.client i) = true) ∨
        ∀ i ∈ l, isMtClientValid c (shm.client i) = false := by
  rw [clearOldMtClientInfo, if_neg (Nat.not_le_of_lt hgate)]
  rcases hf : l.find? fun i => !isMtClientValid c (shm.client i) with _ | i
  · have hv : ∀ i ∈ l, isMtClientValid c (shm.client i) = true := by
      simpa using find?_eq_none.mp hf
    obtain ⟨idx, hsw⟩ := sweep_all_valid hl hv
    rw [hsw, filter_eq_self.mpr hv]
    refine iff_of_true ⟨rfl, hl.isList⟩ (.inl fun i hi => hv i (dropLast_subset l hi))
  · obtain ⟨hi, l1, l2, rfl, hv⟩ := find?_eq_some_iff_append.mp hf
    replace hi : isMtClientValid c (shm.client i) = false := by simpa using hi
    replace hv : ∀ j ∈ l1, isMtClientValid c (shm.client j) = true := by simpa using hv
    rw [filter_append, filter_cons_of_neg (by simp [hi]), filter_eq_self.mpr hv]
    rcases l2 with _ | ⟨j, l2⟩
    · have hil := hl.isList (append_ne_nil_of_right_ne_nil l1 (cons_ne_nil i []))
      have hsw : sweep c shm.wCurClientCount ⟨shm, shm.list.s, 0⟩ =
          ⟨deleteClient shm i, i, l1.length⟩ := by
        rw [hl.count_eq, length_append, length_singleton, sweep_first_invalid 0 hil hv hi]
        rfl
      rw [hsw, filter_nil, append_nil, dropLast_concat]
      refine iff_of_true ⟨rfl, fun _ => ?_⟩ (.inl hv)
      have hdel := hil.deleteNode
      rwa [append_nil] at hdel
    · -- the list is emptied, so it is right only if no client was to be kept
      obtain ⟨hlist, hcount⟩ := sweep_inner_invalid hl hv hi
      have hdrop : i ∈ (l1 ++ i :: j :: l2).dropLast := by
        rw [dropLast_append_of_ne_nil (cons_ne_nil i _)]
        exact mem_append_right _ mem_cons_self
      constructor
      · intro hc
        right
        have hnil : l1 ++ (j :: l2).filter (fun i => isMtClientValid c (shm.client i)) = [] := by
          by_contra hne
          have hil := hc.isList hne
          rw [show _ = (⟨-1, -1⟩ : Head) from hlist] at hil
          exact hne (hil.unique (isList_nil_iff.mpr rfl))
        obtain ⟨rfl, hnil⟩ := append_eq_nil_iff.mp hnil
        intro k hk
        rcases mem_cons.mp hk with rfl | hk
        · exact hi
        · simpa using filter_eq_nil_iff.mp hnil k hk
      · rintro (hall | hnone)
        · exact absurd (hall i hdrop) (by rw [hi]; decide)
        have h1 : l1 = [] := by
          rcases l1 with _ | ⟨k, l1⟩
          · rfl
          · have := hnone k (by simp)
            rw [hv k mem_cons_self] at this
            cases this
        subst h1
        have h2 : (j :: l2).filter (fun i => isMtClientValid c (shm.client i)) = [] :=
          filter_eq_nil_iff.mpr fun k hk => by
            rw [hnone k (mem_cons_of_mem _ hk)]
            decide
        rw [h2]
        exact ⟨hcount, fun h => absurd rfl h⟩

end

/-! ## One client for a machine -/

section
variable {shm shm' : Shm}

theorem setClient_iMachineId (shm : Shm) (i j : Int) (m : MtClientInfo) :
    ((shm.setClient i m).client j).iMachineId =
      if j = i then m.iMachineId else (shm.client j).iMachineId := by
  simp only [Shm.setClient, Function.update_apply]
  split <;> rfl

/-- Every client is at a node of its machine, and no other client has the machine. -/
structure OneEach (shm : Shm) : Prop where
  cell : ∀ i, (shm.client i).iMachineId ≠ 0 → ∃ k ∈ cells
    ((shm.client i).iMachineId % 4294967296).toNat shm.rows.dwNodeNums 0, i = k
  inj : ∀ i j, (shm.client i).iMachineId ≠ 0 →
    (shm.client i).iMachineId = (shm.client j).iMachineId → i = j

theorem OneEach.insertClient (h : OneEach shm) {id : Int} {idx ip : Nat}
    (hs : searchClient shm id = some (idx, false)) : OneEach (insertClient shm idx id ip) := by
  obtain ⟨hcell, hno⟩ := searchRows_cells hs
  have hc : ∀ i, ((MtClient.insertClient shm idx id ip).client i).iMachineId =
      if i = idx then id else (shm.client i).iMachineId := fun i => by
    rw [MtClient.insertClient, (linkFirst_frame _ _).1, setClient_iMachineId]
  have hrows : (MtClient.insertClient shm idx id ip).rows = shm.rows := (linkFirst_frame _ _).2
  -- a client of the machine would be at one of the nodes that were looked at
  have hnew : ∀ i, (shm.client i).iMachineId = id → id = 0 := fun i hi => by
    by_contra h0
    obtain ⟨k, hk, rfl⟩ := h.cell i (hi ▸ h0)
    exact absurd hi (of_decide_eq_false (hno rfl k (hi ▸ hk)))
  constructor
  · grind [h.cell]
  · grind [h.inj]

theorem OneEach.setClient (h : OneEach shm) {i : Int} {m : MtClientInfo}
    (hm : m.iMachineId = 0 ∨ m.iMachineId = (shm.client i).iMachineId) :
    OneEach (shm.setClient i m) := by
  have hrows : (shm.setClient i m).rows = shm.rows := rfl
  constructor
  · grind [setClient_iMachineId, h.cell]
  · grind [setClient_iMachineId, h.inj]

theorem OneEach.sweep (c : Clock) : ∀ n {s : Sweep}, OneEach s.shm → OneEach (sweep c n s).shm
  | 0, _, h => h
  | n + 1, s, h => by
    rw [MtClient.sweep, sweepClient]
    split_ifs
    · exact OneEach.sweep c n h
    · have hd : OneEach (s.shm.setClient s.idx { s.shm.client s.idx with iMachineId := 0 }) :=
        h.setClient (.inl rfl)
      exact OneEach.sweep c n ⟨hd.cell, hd.inj⟩
    · exact h

end

/-! ## Two clients -/

/-- The zeroed table, with one node in each row. -/
def zeroShm : Shm where
  rows := ⟨List.replicate 10 1, by decide, by decide, by decide⟩
  few := by decide
  client := fun _ => .zero
  links := ⟨fun _ => 0, fun _ => 0⟩
  list := ⟨0, 0⟩
  wCurClientCount := 0

/-- Machine 2 says its first hello at `t2`, then machine 1 at `t1`. -/
def twoClients (t1 t2 : Nat) : Shm :=
  initMtClientInfo (insertClient (initMtClientInfo (insertClient zeroShm 1 2 7) 1 t2 7 7) 0 1 7) 0 t1 7 7

theorem twoClients_inv (t1 t2 : Nat) : ClientInv (twoClients t1 t2) [0, 1] := by
  have h0 : ClientInv zeroShm [] :=
    ⟨⟨rfl, fun h => absurd rfl h⟩, fun _ h => (by cases h), fun _ h => (by cases h)⟩
  have h1 := (h0.insertClient 1 2 7 (by decide) rfl (by decide)).initMtClientInfo 1 t2 7 7
  have hrows : 0 < (initMtClientInfo (insertClient zeroShm 1 2 7) 1 t2 7 7).rows.dwNodeNums.sum := by
    show 0 < (List.replicate 10 1).sum
    decide
  exact (h1.insertClient 0 1 7 hrows rfl (by decide)).initMtClientInfo 0 t1 7 7

/-- Hello every 20 seconds, five retries, at second 30000. -/
def sampleClock : Clock := ⟨30000, 5, 20⟩

/-- The last client of the list has expired. -/
theorem clear_keeps_iff_last :
    IsClientList (clearOldMtClientInfo sampleClock 0 (twoClients 30000 0)).2 [0] :=
  (clear_keeps_iff sampleClock 0 (twoClients 30000 0) [0, 1] (twoClients_inv 30000 0).counted
    (by decide)).mpr (.inl (by decide))

/-- The first client has expired, the second one is valid, and the list is
empty afterwards. -/
theorem clear_loses_client : ClientInv (twoClients 0 30000) [0, 1] ∧
      isMtClientValid sampleClock ((twoClients 0 30000).client 1) = true ∧
      ¬ IsClientList (clearOldMtClientInfo sampleClock 0 (twoClients 0 30000)).2
        ([0, 1].filter fun i => isMtClientValid sampleClock ((twoClients 0 30000).client i)) := by
  refine ⟨twoClients_inv 0 30000, by decide, fun h => ?_⟩
  have hcount := h.count_eq
  revert hcount
  decide

end DesPwd.L4.MtClient

import Mathlib.Data.List.Perm.Basic

/-!
# Migrating virtual machines off overloaded hosts

`performMigration` (slog_server/slog_server.cpp) takes the first virtual
machine of every host over the threshold and means to move it to the host with
the least workload. `Host` and `VirtualMachine` are not defined under src; of
them the code uses an id, the list of machines and a nonnegative `cpuUsage`.

* `performMigration_eq_map`: what the loop leaves in the vector: every
  overloaded host without its first machine, and no host with a new one.
* `migration_keeps_iff`: so the machines are kept exactly when no host is over
  the threshold.
-/
namespace DesPwd.L4.Migration

open List

structure VirtualMachine (V : Type) where
  id : V
  cpuUsage : Nat
  deriving DecidableEq

structure Host (H V : Type) where
  id : H
  virtualMachines : List (VirtualMachine V)
  deriving DecidableEq

variable {H V : Type}

/-- mirrors slog_server/slog_server.cpp:293-300 -/
def predictWorkload (host : Host H V) : Nat :=
  host.virtualMachines.foldl (fun total vm => total + vm.cpuUsage) 0

variable {host : Host H V} {thr : Nat}

/-- mirrors slog_server.cpp:303-306 -/
def checkSLAViolation (host : Host H V) (threshold : Nat) : Bool :=
  threshold < predictWorkload host

/-- `std::min_element`: the first of the least hosts, as a copy; `none` for the
empty vector. mirrors slog_server.cpp:309-318 -/
def selectOptimalMigrationTarget : List (Host H V) → Option (Host H V)
  | [] => none
  | h :: hosts => some (hosts.foldl
      (fun least a => if predictWorkload a < predictWorkload least then a else least) h)

variable [DecidableEq V]

/-- Source and destination afterwards; mirrors slog_server.cpp:321-332 -/
def migrateVirtualMachine (source destination : Host H V) (vm : VirtualMachine V) :
    Host H V × Host H V :=
  ({ source with virtualMachines := source.virtualMachines.filter fun v => v.id ≠ vm.id },
    { destination with virtualMachines := destination.virtualMachines ++ [vm] })

/-- One migration: the machine, and the vector when its target was chosen. -/
structure Move (H V : Type) where
  vm : VirtualMachine V
  hosts : List (Host H V)

/-- The body of the loop for `host = hosts[i]`. The target is a local copy, so
what is pushed to it is dropped at the end of the body;
mirrors slog_server.cpp:337-349 -/
def migrateAt (slaThreshold : Nat) (st : List (Host H V) × List (Move H V)) (i : Nat) :
    List (Host H V) × List (Move H V) :=
  match st.1[i]? with
  | none => st
  | some host =>
    if checkSLAViolation host slaThreshold then
      match host.virtualMachines, selectOptimalMigrationTarget st.1 with
      | vmToMigrate :: _, some optimalTarget =>
        let (host', _) := migrateVirtualMachine host optimalTarget vmToMigrate
        (st.1.set i host', st.2 ++ [⟨vmToMigrate, st.1⟩])
      | _, _ => st
    else st

/-- The vector afterwards, and the migrations in order;
mirrors slog_server.cpp:335-351 -/
def performMigration (hosts : List (Host H V)) (slaThreshold : Nat) :
    List (Host H V) × List (Move H V) :=
  (List.range hosts.length).foldl (migrateAt slaThreshold) (hosts, [])

/-! ## What the loop does -/

/-- A host after its turn. -/
def afterTurn (slaThreshold : Nat) (host : Host H V) : Host H V :=
  if checkSLAViolation host slaThreshold then
    match host.virtualMachines with
    | [] => host
    | vm :: vms => { host with virtualMachines := (vm :: vms).filter fun v => v.id ≠ vm.id }
  else host

theorem migrateAt_hosts (thr : Nat) {hosts : List (Host H V)} {i : Nat}
    (hi : hosts[i]? = some host) (log : List (Move H V)) :
    (migrateAt thr (hosts, log) i).1 = hosts.set i (afterTurn thr host) := by
  have hself : hosts.set i host = hosts := by
    obtain ⟨h, rfl⟩ := List.getElem?_eq_some_iff.mp hi
    exact set_getElem_self h
  unfold migrateAt afterTurn
  simp only [hi]
  split
  · cases hv : host.virtualMachines with
    | nil => exact hself.symm
    | cons vm vms =>
      obtain ⟨target, ht⟩ : ∃ t, selectOptimalMigrationTarget hosts = some t := by
        cases hosts with
        | nil => simp at hi
        | cons h hosts => exact ⟨_, rfl⟩
      simp [ht, migrateVirtualMachine, hv]
  · exact hself.symm

theorem migrate_range (thr : Nat) (hosts : List (Host H V)) : ∀ k, k ≤ hosts.length →
    ((List.range k).foldl (migrateAt thr) (hosts, [])).1 =
      (hosts.take k).map (afterTurn thr) ++ hosts.drop k := by
  intro k
  induction k with
  | zero => simp
  | succ k ih =>
    intro hk
    have hlen : ((hosts.take k).map (afterTurn thr)).length = k := by simp; omega
    have hdrop : hosts.drop k = hosts[k] :: hosts.drop (k + 1) := drop_eq_getElem_cons hk
    rw [range_succ, foldl_append, foldl_cons, foldl_nil]
    rcases hst : (List.range k).foldl (migrateAt thr) (hosts, []) with ⟨cur, log⟩
    have hcur := ih (by omega)
    rw [hst] at hcur
    have hget : cur[k]? = some hosts[k] := by
      rw [show cur = _ from hcur, getElem?_append_right (by omega), hlen, Nat.sub_self, hdrop]
      rfl
    rw [migrateAt_hosts thr hget, show cur = _ from hcur, set_append_right _ _ (by omega), hlen,
      Nat.sub_self, hdrop, take_succ_eq_append_getElem hk, map_append,
      append_assoc]
    rfl

/-- **The vector after the loop.** Every host is as it was after its own turn:
no host has gained a machine. -/
theorem performMigration_eq_map (hosts : List (Host H V)) (thr : Nat) :
    (performMigration hosts thr).1 = hosts.map (afterTurn thr) := by
  have := migrate_range thr hosts hosts.length (Nat.le_refl _)
  rw [take_length, drop_length, append_nil] at this
  exact this

/-! ## Keeping the machines -/

/-- All machines over all hosts. -/
def allVms (hosts : List (Host H V)) : List (VirtualMachine V) := hosts.flatMap Host.virtualMachines

/-- The machines are kept, and each one that was taken is in the end on a host
of the vector that had the least workload when the target was chosen. -/
def KeepsVms (hosts : List (Host H V)) (slaThreshold : Nat) : Prop :=
  (allVms (performMigration hosts slaThreshold).1).Perm (allVms hosts) ∧
    ∀ m ∈ (performMigration hosts slaThreshold).2, ∃ (j : Nat) (h0 h₁ : Host H V),
      m.hosts[j]? = some h0 ∧
      (performMigration hosts slaThreshold).1[j]? = some h₁ ∧ m.vm ∈ h₁.virtualMachines ∧
      ∀ h ∈ m.hosts, predictWorkload h0 ≤ predictWorkload h

theorem afterTurn_length_le (thr : Nat) (host : Host H V) :
    (afterTurn thr host).virtualMachines.length ≤ host.virtualMachines.length := by
  unfold afterTurn
  split
  · split
    · exact Nat.le_refl _
    · rename_i vm vms hv
      rw [hv]
      exact length_filter_le _ _
  · exact Nat.le_refl _

/-- An overloaded host has a first machine, and loses it. -/
theorem afterTurn_length_lt (h : checkSLAViolation host thr = true) :
    (afterTurn thr host).virtualMachines.length < host.virtualMachines.length := by
  unfold afterTurn
  rw [if_pos h]
  cases hv : host.virtualMachines with
  | nil =>
    simp [checkSLAViolation, predictWorkload, hv] at h
  | cons vm vms =>
    simp only [filter_cons, ne_eq]
    exact Nat.lt_succ_of_le (length_filter_le _ _)

theorem allVms_length_le (thr : Nat) : ∀ hosts : List (Host H V),
    (allVms (hosts.map (afterTurn thr))).length ≤ (allVms hosts).length
  | [] => Nat.le_refl _
  | h :: hosts => by
    have h1 := afterTurn_length_le thr h
    have h2 := allVms_length_le thr hosts
    simp only [allVms, map_cons, flatMap_cons, length_append] at *
    omega

theorem allVms_length_lt (hv : checkSLAViolation host thr = true) :
    ∀ {hosts}, host ∈ hosts →
      (allVms (hosts.map (afterTurn thr))).length < (allVms hosts).length
  | h :: hosts, hm => by
    have h1 := afterTurn_length_le thr h
    have h2 := allVms_length_le thr hosts
    rcases mem_cons.mp hm with rfl | hm
    · have h3 := afterTurn_length_lt hv
      simp only [allVms, map_cons, flatMap_cons, length_append] at *
      omega
    · have h3 := allVms_length_lt hv hm
      simp only [allVms, map_cons, flatMap_cons, length_append] at *
      omega

theorem performMigration_of_none {hosts : List (Host H V)}
    (h : ∀ host ∈ hosts, checkSLAViolation host thr = false) :
    performMigration hosts thr = (hosts, []) := by
  have hstep : ∀ i, migrateAt thr (hosts, []) i = (hosts, []) := fun i => by
    unfold migrateAt
    cases hi : hosts[i]? with
    | none => rfl
    | some host =>
      have := h host (mem_of_getElem? hi)
      simp [this]
  have : ∀ is : List Nat, is.foldl (migrateAt thr) (hosts, []) = (hosts, []) := fun is => by
    induction is with
    | nil => rfl
    | cons i is ih => rw [foldl_cons, hstep, ih]
  exact this _

/-- **Migration keeps the machines exactly when it has nothing to do.** -/
theorem migration_keeps_iff (hosts : List (Host H V)) (slaThreshold : Nat) :
    KeepsVms hosts slaThreshold ↔ ∀ host ∈ hosts, predictWorkload host ≤ slaThreshold := by
  constructor
  · rintro ⟨hp, -⟩ host hm
    by_contra hlt
    have hv : checkSLAViolation host slaThreshold = true := by
      simpa [checkSLAViolation] using hlt
    rw [performMigration_eq_map] at hp
    exact absurd hp.length_eq (Nat.ne_of_lt (allVms_length_lt hv hm))
  · intro h
    have hn : performMigration hosts slaThreshold = (hosts, []) :=
      performMigration_of_none fun host hm => by simpa [checkSLAViolation] using h host hm
    rw [KeepsVms, hn]
    exact ⟨List.Perm.refl _, by simp⟩

/-- One machine on the first of two hosts, over the threshold: afterwards it is
on neither. -/
theorem migration_loses_vm :
    let hosts : List (Host Nat Nat) := [⟨1, [⟨7, 10⟩]⟩, ⟨2, []⟩]
    allVms (performMigration hosts 5).1 = [] ∧
      (performMigration hosts 5).2.map Move.vm = [⟨7, 10⟩] ∧ ¬ KeepsVms hosts 5 := by
  refine ⟨by decide, by decide, fun h => ?_⟩
  exact absurd h.1.length_eq (by decide)

end DesPwd.L4.Migration

import JobArranger.Core.Prog
import JobArranger.Core.Propagate
import JobArranger.Core.Table
import JobArranger.L1Data.Tables
import Mathlib.Order.Bounds.Basic

/-!
# The service tree of a Zabbix link icon

Switching a trigger on or off sets the status of its IT services, and what
stands above them in the tree is worked out anew
(`jarun_icon_zabbixlink_set_service`). A service takes the highest or the
lowest status below it; each change of a status is noted in
`service_alarms`.

* `switches_settle`: in a tree without cycles the walk ends, and after any
  number of switches every service agrees with what is below it and with its
  newest alarm; a switch that meets a failure changes nothing.
* `switches_history`: the alarms of a service never note the same status
  twice in a row, whatever the tree looks like and whatever fails.
-/
namespace JobArranger.ZabbixLink

open Prog

/-! ## Tables -/

structure Service where
  serviceid : Id
  status : Int
  algorithm : Int
  triggerid : Option Id
  deriving DecidableEq, Repr

structure ServicesLink where
  serviceupid : Id
  servicedownid : Id
  deriving DecidableEq, Repr

structure ServiceAlarm where
  servicealarmid : Nat
  serviceid : Id
  clock : Nat
  value : Int
  deriving DecidableEq, Repr

structure Ids where
  nodeid : Id
  tableName : String
  fieldName : String
  nextid : Nat
  deriving DecidableEq, Repr

def Ids.key (r : Ids) : Id × String × String := (r.nodeid, r.tableName, r.fieldName)

structure Trigger where
  triggerid : Id
  status : Int
  value : Int
  priority : Int
  deriving DecidableEq, Repr

structure Zabbix where
  services : List Service
  servicesLinks : List ServicesLink
  serviceAlarms : List ServiceAlarm
  ids : List Ids
  triggers : List Trigger
  deriving DecidableEq, Repr

/-- `ZBXLINK_SERVICE_ALGORITHM_NONE`, `_MAX` and `_MIN`.
mirrors src/jobarg_server/jarun/jaruniconzabbixlink.c:66-68 -/
def algorithmNone : Int := 0
def algorithmMax : Int := 1
def algorithmMin : Int := 2

/-- `ZBXLINK_TRIGGER_STATUS_ENABLED` and `ZBXLINK_TRIGGER_VALUE_TRUE`.
mirrors src/jobarg_server/jarun/jaruniconzabbixlink.c:54-60 -/
def triggerStatusEnabled : Int := 0
def triggerValueTrue : Int := 1

namespace Zabbix

def idsRow (z : Zabbix) (tableName fieldName : String) : Option Ids :=
  Table.lookup Ids.key (0, tableName, fieldName) z.ids

/-- `order by servicealarmid desc limit 1`. -/
def newestAlarm (z : Zabbix) (serviceId : Id) : Option ServiceAlarm :=
  ((z.serviceAlarms.filter (·.serviceid == serviceId)).insertionSort
    fun a b => b.servicealarmid ≤ a.servicealarmid).head?

/-- `select serviceupid from services_links where servicedownid = …` -/
def ups (z : Zabbix) (serviceId : Id) : List Id :=
  (z.servicesLinks.filter (·.servicedownid == serviceId)).map (·.serviceupid)

/-- The services above one, with their algorithms. -/
def servicesAbove (z : Zabbix) (serviceId : Id) : List (Id × Int) :=
  (z.servicesLinks.filter (·.servicedownid == serviceId)).flatMap fun l =>
    (z.services.filter (·.serviceid == l.serviceupid)).map fun s => (l.serviceupid, s.algorithm)

/-- The statuses of the services below one. -/
def statusesBelow (z : Zabbix) (serviceId : Id) : List Int :=
  (z.servicesLinks.filter (·.serviceupid == serviceId)).flatMap fun l =>
    (z.services.filter (·.serviceid == l.servicedownid)).map (·.status)

/-- `order by s.status DESC` or `ASC`, the first row. -/
def firstStatus (z : Zabbix) (serviceupId : Id) (algorithm : Int) : Option Int :=
  if algorithm = algorithmMax then ((z.statusesBelow serviceupId).insertionSort (· ≥ ·)).head?
  else ((z.statusesBelow serviceupId).insertionSort (· ≤ ·)).head?

/-- `select serviceid from services where triggerid = …` -/
def triggered (z : Zabbix) (triggerId : Id) : List Id :=
  (z.services.filter (·.triggerid == some triggerId)).map (·.serviceid)

/-- What a trigger makes of its services: its priority where it is switched
on and has fired. -/
def triggerStatus (z : Zabbix) (setTriggerId : Id) (status : Int) : Int :=
  if status = triggerStatusEnabled then
    ((z.triggers.find? fun t => t.triggerid == setTriggerId && t.status == triggerStatusEnabled &&
      t.value == triggerValueTrue).map (·.priority)).getD 0
  else 0

/-- `update services set status = … where serviceid = …` -/
def setStatus (z : Zabbix) (serviceId : Id) (status : Int) : Zabbix :=
  { z with
    services := Table.update (fun s => s.serviceid == serviceId) (fun s => { s with status := status }) z.services }

/-- `update services set status = … where triggerid = …` -/
def setTriggered (z : Zabbix) (triggerId : Id) (status : Int) : Zabbix :=
  { z with
    services := Table.update (fun s => s.triggerid == some triggerId) (fun s => { s with status := status }) z.services }

def bumpIds (z : Zabbix) (tableName fieldName : String) : Zabbix :=
  { z with
    ids := Table.update (fun r => r.key == (0, tableName, fieldName)) (fun r => { r with nextid := r.nextid + 1 }) z.ids }

def addAlarm (z : Zabbix) (a : ServiceAlarm) : Zabbix := { z with serviceAlarms := z.serviceAlarms ++ [a] }

end Zabbix

/-! ## The functions -/

variable (logs : String → Nat) (now : Nat)

/-- mirrors src/jobarg_server/jarun/jaruniconzabbixlink.c:480-514 -/
def updateIds (tableName fieldName : String) : Prog Zabbix (Option Nat) := do
  if ← exec (·.bumpIds tableName fieldName) then
    match (← select).bind (·.idsRow tableName fieldName) with
    | some r => pure (some r.nextid)
    | none =>
      queries (logs "JARUNICONZABBIXLINK200008")
      pure none
  else pure none

/-- mirrors src/jobarg_server/jarun/jaruniconzabbixlink.c:529-560 -/
def insertServiceAlarms (serviceId : Id) (status : Int) : Prog Zabbix Ret := do
  match ← updateIds logs "service_alarms" "servicealarmid" with
  | none =>
    queries (logs "JARUNICONZABBIXLINK200009")
    pure .fail
  | some nextid =>
    if ← exec (·.addAlarm ⟨nextid, serviceId, now, status⟩) then pure .succeed else pure .fail

/-- The alarm is added where the newest one has another value, or there is
none.
mirrors src/jobarg_server/jarun/jaruniconzabbixlink.c:575-617 -/
def searchServiceAlarms (serviceId : Id) (status : Int) : Prog Zabbix Ret := do
  let insert : Prog Zabbix Ret := do
    match ← insertServiceAlarms logs now serviceId status with
    | .succeed => pure .succeed
    | .fail =>
      queries (logs "JARUNICONZABBIXLINK200010")
      pure .fail
  match (← select).bind (·.newestAlarm serviceId) with
  | some a => if a.value ≠ status then insert else pure .succeed
  | none => insert

/-- The first loop of `jarun_icon_zabbixlink_search_service_links`: the
services directly above take their statuses. -/
def redoLoop : List (Id × Int) → Prog Zabbix Ret
  | [] => pure .succeed
  | (serviceupId, algorithm) :: rows => do
    if algorithm = algorithmMax ∨ algorithm = algorithmMin then
      let status := ((← select).bind fun z => z.firstStatus serviceupId algorithm).getD 0
      match ← searchServiceAlarms logs now serviceupId status with
      | .fail =>
        queries (logs "JARUNICONZABBIXLINK200011")
        pure .fail
      | .succeed =>
        if ← exec (·.setStatus serviceupId status) then redoLoop rows else pure .fail
    else if algorithm ≠ algorithmNone then
      queries (logs "JARUNICONZABBIXLINK200013")
      pure .fail
    else redoLoop rows

/-- The second loop: the results of the calls are not looked at. `none`: the
recursion has not come to an end. -/
def visitLoop (search : Id → Prog Zabbix (Option Ret)) : List Id → Prog Zabbix (Option Ret)
  | [] => pure (some .succeed)
  | serviceupId :: rest => do
    match ← search serviceupId with
    | none => pure none
    | some _ => visitLoop search rest

/-- `k` bounds the depth of the recursion.
mirrors src/jobarg_server/jarun/jaruniconzabbixlink.c:632-716 -/
def searchServiceLinks : Nat → Id → Prog Zabbix (Option Ret)
  | 0, _ => pure none
  | k + 1, serviceId => do
    match ← redoLoop logs now (((← select).map (·.servicesAbove serviceId)).getD []) with
    | .fail => pure (some .fail)
    | .succeed => visitLoop (searchServiceLinks k) (((← select).map (·.ups serviceId)).getD [])

/-- The services of the trigger, one after the other. -/
def serviceLoop (k : Nat) (status : Int) : List Id → Prog Zabbix (Option Ret)
  | [] => pure (some .succeed)
  | serviceId :: rest => do
    match ← searchServiceAlarms logs now serviceId status with
    | .fail =>
      queries (logs "JARUNICONZABBIXLINK200011")
      pure (some .fail)
    | .succeed =>
      match ← searchServiceLinks logs now k serviceId with
      | none => pure none
      | some .fail =>
        queries (logs "JARUNICONZABBIXLINK200017")
        pure (some .fail)
      | some .succeed => serviceLoop k status rest

/-- The trigger is read only where it is switched on.
mirrors src/jobarg_server/jarun/jaruniconzabbixlink.c:783-802 -/
def readStatus (setTriggerId : Id) (setStatus : Int) : Prog Zabbix Int :=
  if setStatus = triggerStatusEnabled then do
    return ((← select).map fun z => z.triggerStatus setTriggerId setStatus).getD 0
  else pure 0

/-- mirrors src/jobarg_server/jarun/jaruniconzabbixlink.c:769-835 -/
def setService (k : Nat) (setTriggerId : Id) (setStatus : Int) : Prog Zabbix (Option Ret) := do
  let status ← readStatus setTriggerId setStatus
  if ← exec (·.setTriggered setTriggerId status) then
    serviceLoop logs now k status (((← select).map (·.triggered setTriggerId)).getD [])
  else pure (some .fail)

/-! ## Tables in order -/

/-- What the functions rely on: one row for a service, the three algorithms,
and the counter of the alarms at or above the alarms there are. -/
structure InOrder (z : Zabbix) : Prop where
  services : (z.services.map (·.serviceid)).Nodup
  algorithms : ∀ s ∈ z.services, s.algorithm = algorithmNone ∨ s.algorithm = algorithmMax ∨ s.algorithm = algorithmMin
  alarms : ∃ r, z.idsRow "service_alarms" "servicealarmid" = some r ∧
    ∀ a ∈ z.serviceAlarms, a.servicealarmid ≤ r.nextid

/-- All that no change of a status touches. -/
structure SameTree (z z' : Zabbix) : Prop where
  links : z'.servicesLinks = z.servicesLinks
  services : z'.services.map (fun s => (s.serviceid, s.algorithm, s.triggerid)) =
    z.services.map fun s => (s.serviceid, s.algorithm, s.triggerid)
  triggers : z'.triggers = z.triggers

theorem SameTree.refl (z : Zabbix) : SameTree z z := ⟨rfl, rfl, rfl⟩

theorem SameTree.trans {z z₁ z₂ : Zabbix} (h : SameTree z z₁) (h' : SameTree z₁ z₂) : SameTree z z₂ :=
  ⟨h'.links.trans h.links, h'.services.trans h.services, h'.triggers.trans h.triggers⟩

/-- The value of the newest alarm, or 0. -/
def Zabbix.lastValue (z : Zabbix) (x : Id) : Int := ((z.newestAlarm x).map (·.value)).getD 0

/-- The newest alarm of a service has its status. -/
def Noted (z : Zabbix) (x : Id) : Prop := ∀ s ∈ z.services, s.serviceid = x → z.lastValue x = s.status

/-- A service that has others below it has the highest or the lowest status
of them, as its algorithm says. -/
structure Settled (z : Zabbix) (x : Id) : Prop where
  highest : ∀ s ∈ z.services, s.serviceid = x → s.algorithm = algorithmMax → z.statusesBelow x ≠ [] →
    IsGreatest {v | v ∈ z.statusesBelow x} s.status
  lowest : ∀ s ∈ z.services, s.serviceid = x → s.algorithm = algorithmMin → z.statusesBelow x ≠ [] →
    IsLeast {v | v ∈ z.statusesBelow x} s.status

/-! ### Alarms -/

theorem head_insertionSort {α : Type*} {r : α → α → Prop} [DecidableRel r] [Std.Total r] [IsTrans α r] {l : List α}
    {a : α} (ha : a ∈ l) (h : ∀ b ∈ l, r b a → b = a) : (l.insertionSort r).head? = some a := by
  have hp := List.pairwise_insertionSort r l
  have hm : a ∈ l.insertionSort r := (List.mem_insertionSort r).2 ha
  have hb : ∀ b ∈ l.insertionSort r, b ∈ l := fun b hb => (List.mem_insertionSort r).1 hb
  cases hs : l.insertionSort r with
  | nil =>
    rw [hs] at hm
    cases hm
  | cons b rest =>
    rw [hs] at hp hm hb
    obtain rfl | hrest := List.mem_cons.1 hm
    · rfl
    · rw [List.head?_cons, h b (hb b List.mem_cons_self) ((List.pairwise_cons.1 hp).1 a hrest)]

theorem insertionSort_head {α : Type*} {r : α → α → Prop} [DecidableRel r] [Std.Total r] [IsTrans α r] {l : List α}
    {a : α} (h : (l.insertionSort r).head? = some a) : a ∈ l ∧ ∀ b ∈ l, b = a ∨ r a b := by
  obtain ⟨rest, hs⟩ := List.head?_eq_some_iff.1 h
  have hp := List.pairwise_insertionSort r l
  rw [hs] at hp
  refine ⟨(List.mem_insertionSort r).1 (by rw [hs]; exact List.mem_cons_self), ?_⟩
  intro b hb
  have hm : b ∈ l.insertionSort r := (List.mem_insertionSort r).2 hb
  rw [hs] at hm
  exact (List.mem_cons.1 hm).imp id fun h => (List.pairwise_cons.1 hp).1 b h

instance alarmOrder_total : Std.Total fun a b : ServiceAlarm => b.servicealarmid ≤ a.servicealarmid :=
  ⟨fun a b => Nat.le_total b.servicealarmid a.servicealarmid⟩

instance alarmOrder_trans : IsTrans ServiceAlarm fun a b => b.servicealarmid ≤ a.servicealarmid :=
  ⟨fun _ _ _ h h' => Nat.le_trans h' h⟩

theorem newestAlarm_add {z : Zabbix} {a : ServiceAlarm} {x : Id} (hx : a.serviceid = x)
    (h : ∀ b ∈ z.serviceAlarms, b.servicealarmid < a.servicealarmid) : (z.addAlarm a).newestAlarm x = some a := by
  apply head_insertionSort
  · simp [Zabbix.addAlarm, hx]
  · intro b hb hba
    obtain hb | rfl : b ∈ z.serviceAlarms ∨ b = a := by
      simpa [Zabbix.addAlarm] using (List.mem_filter.1 hb).1
    · exact absurd (h b hb) (Nat.not_lt.2 hba)
    · rfl

theorem newestAlarm_add_of_ne (z : Zabbix) {a : ServiceAlarm} {x : Id} (hx : x ≠ a.serviceid) :
    (z.addAlarm a).newestAlarm x = z.newestAlarm x := by
  have ha : (a.serviceid == x) = false := by simp [hx.symm]
  simp [Zabbix.newestAlarm, Zabbix.addAlarm, ha]

theorem idsRow_bump (z : Zabbix) (t f : String) :
    (z.bumpIds t f).idsRow t f = (z.idsRow t f).map fun r => { r with nextid := r.nextid + 1 } := by
  refine (Table.lookup_update Ids.key (0, t, f) _ (fun r => { r with nextid := r.nextid + 1 }) z.ids
    fun _ => rfl).trans ?_
  unfold Zabbix.idsRow
  cases h : Table.lookup Ids.key (0, t, f) z.ids with
  | none => rfl
  | some r => simp [(Table.lookup_mem h).2]

/-- A status noted: the tree is as it was, and only the alarms of this
service may have grown. -/
structure Note (x : Id) (v : Int) (z z' : Zabbix) : Prop where
  services : z'.services = z.services
  links : z'.servicesLinks = z.servicesLinks
  triggers : z'.triggers = z.triggers
  inOrder : InOrder z'
  value : z'.lastValue x = v
  others : ∀ y, y ≠ x → z'.lastValue y = z.lastValue y

theorem clean_insertServiceAlarms {z : Zabbix} (hz : InOrder z) (x : Id) (v : Int) :
    ∃ z', (insertServiceAlarms logs now x v).clean z = (z', .succeed) ∧ Note x v z z' := by
  obtain ⟨r, hr, hle⟩ := hz.alarms
  have hids := idsRow_bump z "service_alarms" "servicealarmid"
  rw [hr] at hids
  have hupdate : (updateIds logs "service_alarms" "servicealarmid").clean z =
      (z.bumpIds "service_alarms" "servicealarmid", some (r.nextid + 1)) := by
    simp [updateIds, hids]
  refine ⟨(z.bumpIds "service_alarms" "servicealarmid").addAlarm ⟨r.nextid + 1, x, now, v⟩, ?_, rfl, rfl, rfl,
    ?_, ?_, ?_⟩
  · simp [insertServiceAlarms, hupdate]
  · refine ⟨hz.services, hz.algorithms, _, hids, ?_⟩
    intro a ha
    obtain ha | rfl : a ∈ z.serviceAlarms ∨ a = ⟨r.nextid + 1, x, now, v⟩ := by
      simpa [Zabbix.addAlarm, Zabbix.bumpIds] using ha
    · exact Nat.le_succ_of_le (hle a ha)
    · exact Nat.le_refl _
  · have hnew : ((z.bumpIds "service_alarms" "servicealarmid").addAlarm ⟨r.nextid + 1, x, now, v⟩).newestAlarm x =
        some ⟨r.nextid + 1, x, now, v⟩ := newestAlarm_add rfl fun b hb => Nat.lt_succ_of_le (hle b hb)
    simp [Zabbix.lastValue, hnew]
  · intro y hy
    rw [Zabbix.lastValue, newestAlarm_add_of_ne _ hy]
    rfl

theorem clean_searchServiceAlarms {z : Zabbix} (hz : InOrder z) (x : Id) (v : Int) :
    ∃ z', (searchServiceAlarms logs now x v).clean z = (z', .succeed) ∧ Note x v z z' := by
  obtain ⟨z', hclean, hnote⟩ := clean_insertServiceAlarms logs now hz x v
  cases ha : z.newestAlarm x with
  | none => exact ⟨z', by simp [searchServiceAlarms, ha, hclean], hnote⟩
  | some a =>
    by_cases hv : a.value = v
    · refine ⟨z, by simp [searchServiceAlarms, ha, hv], rfl, rfl, rfl, hz, ?_, fun _ _ => rfl⟩
      rw [Zabbix.lastValue, ha]
      exact hv
    · exact ⟨z', by simp [searchServiceAlarms, ha, hv, hclean], hnote⟩

theorem Note.sameTree {x : Id} {v : Int} {z z' : Zabbix} (h : Note x v z z') : SameTree z z' :=
  ⟨h.links, by rw [h.services], h.triggers⟩

theorem Note.statusesBelow {x : Id} {v : Int} {z z' : Zabbix} (h : Note x v z z') (y : Id) :
    z'.statusesBelow y = z.statusesBelow y := by
  rw [Zabbix.statusesBelow, h.links, h.services]
  rfl

theorem Note.settled {x y : Id} {v : Int} {z z' : Zabbix} (h : Note x v z z') (hs : Settled z y) : Settled z' y := by
  constructor
  · rw [h.services, h.statusesBelow]
    exact hs.highest
  · rw [h.services, h.statusesBelow]
    exact hs.lowest

/-! ### Statuses -/

theorem firstStatus_max {z : Zabbix} {x : Id} (h : z.statusesBelow x ≠ []) :
    IsGreatest {v | v ∈ z.statusesBelow x} ((z.firstStatus x algorithmMax).getD 0) := by
  cases hf : z.firstStatus x algorithmMax with
  | none =>
    have hl := congrArg List.length (List.head?_eq_none_iff.1 hf)
    rw [List.length_insertionSort] at hl
    exact absurd (List.length_eq_zero_iff.1 hl) h
  | some v =>
    obtain ⟨hm, hle⟩ := insertionSort_head hf
    refine ⟨hm, ?_⟩
    intro w hw
    obtain rfl | hw := hle w hw
    · exact le_refl _
    · exact hw

theorem firstStatus_min {z : Zabbix} {x : Id} (h : z.statusesBelow x ≠ []) :
    IsLeast {v | v ∈ z.statusesBelow x} ((z.firstStatus x algorithmMin).getD 0) := by
  cases hf : z.firstStatus x algorithmMin with
  | none =>
    have hl := congrArg List.length (List.head?_eq_none_iff.1 hf)
    rw [List.length_insertionSort] at hl
    exact absurd (List.length_eq_zero_iff.1 hl) h
  | some v =>
    obtain ⟨hm, hle⟩ := insertionSort_head hf
    refine ⟨hm, ?_⟩
    intro w hw
    obtain rfl | hw := hle w hw
    · exact le_refl _
    · exact hw

theorem mem_ups {z : Zabbix} {u x : Id} :
    u ∈ z.ups x ↔ ∃ l ∈ z.servicesLinks, l.servicedownid = x ∧ l.serviceupid = u := by
  simp [Zabbix.ups, and_assoc]

/-- A status that changes is seen by the services directly above only. -/
theorem statusesBelow_setStatus {z : Zabbix} {u y : Id} (hy : y ∉ z.ups u) (v : Int) :
    (z.setStatus u v).statusesBelow y = z.statusesBelow y := by
  refine List.flatMap_congr ?_
  intro l hl
  obtain ⟨hl, hup⟩ := List.mem_filter.1 hl
  have hne : l.servicedownid ≠ u := by
    intro he
    exact hy (mem_ups.2 ⟨l, hl, he, by simpa using hup⟩)
  change ((Table.update (fun s => s.serviceid == u) (fun s => { s with status := v }) z.services).filter
    (·.serviceid == l.servicedownid)).map (·.status) = _
  induction z.services with
  | nil => rfl
  | cons s rest ih =>
    by_cases hs : s.serviceid = l.servicedownid
    · have hsu : s.serviceid ≠ u := by rw [hs]; exact hne
      simpa [Table.update, hs, hsu, hne] using ih
    · by_cases hsu : s.serviceid = u
      · simpa [Table.update, hs, hsu, hne.symm] using ih
      · simpa [Table.update, hs, hsu] using ih

theorem setStatus_sameTree (z : Zabbix) (u : Id) (v : Int) : SameTree z (z.setStatus u v) :=
  ⟨rfl, Table.map_update _ _ _ _ fun _ => rfl, rfl⟩

theorem mem_setStatus {z : Zabbix} {u : Id} {v : Int} {s : Service} (h : s ∈ (z.setStatus u v).services) :
    (s.serviceid = u ∧ s.status = v) ∨ (s.serviceid ≠ u ∧ s ∈ z.services) := by
  obtain ⟨s₀, hs₀, rfl⟩ := Table.mem_update.1 h
  by_cases hu : s₀.serviceid = u
  · left
    simp [hu]
  · right
    simp [hu, hs₀]

theorem setStatus_inOrder {z : Zabbix} (h : InOrder z) (u : Id) (v : Int) : InOrder (z.setStatus u v) := by
  refine ⟨?_, ?_, h.alarms⟩
  · rw [show (z.setStatus u v).services.map (·.serviceid) = z.services.map (·.serviceid) from
      Table.map_update _ _ _ _ fun _ => rfl]
    exact h.services
  · intro s hs
    obtain ⟨s₀, hs₀, rfl⟩ := Table.mem_update.1 hs
    have ha := h.algorithms s₀ hs₀
    split
    · exact ha
    · exact ha

/-! ### One service redone -/

/-- The row of the first query for one service above. -/
def Zabbix.rowsFor (z : Zabbix) (u : Id) : List (Id × Int) :=
  (z.services.filter (·.serviceid == u)).map fun s => (u, s.algorithm)

/-- A service works out its status anew. -/
def redo (u : Id) (z : Zabbix) : Zabbix := ((redoLoop logs now (z.rowsFor u)).clean z).1

theorem servicesAbove_eq (z : Zabbix) (x : Id) : z.servicesAbove x = (z.ups x).flatMap z.rowsFor := by
  simp only [Zabbix.servicesAbove, Zabbix.ups, Zabbix.rowsFor, List.flatMap_map]

theorem SameTree.ups {z z' : Zabbix} (h : SameTree z z') (x : Id) : z'.ups x = z.ups x := by
  rw [Zabbix.ups, h.links]
  rfl

theorem SameTree.rowsFor {z z' : Zabbix} (h : SameTree z z') (u : Id) : z'.rowsFor u = z.rowsFor u := by
  have hshape : ∀ z : Zabbix, z.rowsFor u =
      ((z.services.map fun s => (s.serviceid, s.algorithm, s.triggerid)).filter (·.1 == u)).map fun s => (u, s.2.1) := by
    intro z
    simp only [Zabbix.rowsFor, List.filter_map, List.map_map]
    rfl
  rw [hshape, hshape, h.services]

theorem rowsFor_cases {z : Zabbix} (hz : InOrder z) (u : Id) :
    (z.rowsFor u = [] ∧ ∀ s ∈ z.services, s.serviceid ≠ u) ∨
      ∃ s ∈ z.services, s.serviceid = u ∧ z.rowsFor u = [(u, s.algorithm)] := by
  unfold Zabbix.rowsFor
  cases hl : z.services.filter (·.serviceid == u) with
  | nil =>
    left
    refine ⟨rfl, ?_⟩
    intro s hs hu
    have := List.filter_eq_nil_iff.1 hl s hs
    simp [hu] at this
  | cons s rest =>
    right
    have hmem : ∀ s', s' ∈ s :: rest → s' ∈ z.services ∧ s'.serviceid = u := by
      intro s' hs'
      rw [← hl] at hs'
      simpa using hs'
    obtain ⟨hs, hu⟩ := hmem s List.mem_cons_self
    refine ⟨s, hs, hu, ?_⟩
    cases rest with
    | nil => rfl
    | cons s' rest =>
      obtain ⟨hs', hu'⟩ := hmem s' (by simp)
      have hsame := Table.eq_of_key hz.services hs hs' (hu.trans hu'.symm)
      have hnd : (z.services.filter (·.serviceid == u)).Nodup := (List.Nodup.of_map _ hz.services).filter _
      rw [hl, hsame] at hnd
      simp at hnd

theorem clean_redoLoop_append (as bs : List (Id × Int)) {z : Zabbix}
    (h : ((redoLoop logs now as).clean z).2 = .succeed) :
    (redoLoop logs now (as ++ bs)).clean z = (redoLoop logs now bs).clean ((redoLoop logs now as).clean z).1 := by
  induction as generalizing z with
  | nil => rfl
  | cons a as ih =>
    obtain ⟨u, alg⟩ := a
    simp only [List.cons_append, redoLoop] at h ⊢
    by_cases halg : alg = algorithmMax ∨ alg = algorithmMin
    · simp only [if_pos halg, clean_bind, clean_select] at h ⊢
      generalize (searchServiceAlarms logs now u _).clean z = r at h ⊢
      obtain ⟨z₁, r⟩ := r
      cases r with
      | fail => simp at h
      | succeed =>
        simp only [clean_bind, clean_exec, if_true] at h ⊢
        exact ih h
    · simp only [if_neg halg] at h ⊢
      by_cases hnone : alg = algorithmNone
      · simp only [hnone, ne_eq, not_true, if_false] at h ⊢
        exact ih h
      · simp [hnone] at h

/-- Either the service has no algorithm and nothing happens, or its new
status is noted and set. -/
theorem redo_cases {z : Zabbix} (hz : InOrder z) (u : Id) :
    ((redoLoop logs now (z.rowsFor u)).clean z).2 = .succeed ∧
      ((redo logs now u z = z ∧ ∀ s ∈ z.services, s.serviceid = u → s.algorithm = algorithmNone) ∨
        ∃ s ∈ z.services, ∃ z₁, s.serviceid = u ∧ (s.algorithm = algorithmMax ∨ s.algorithm = algorithmMin) ∧
          Note u ((z.firstStatus u s.algorithm).getD 0) z z₁ ∧
          redo logs now u z = z₁.setStatus u ((z.firstStatus u s.algorithm).getD 0)) := by
  unfold redo
  obtain ⟨hnil, hmissing⟩ | ⟨s, hs, hu, hrow⟩ := rowsFor_cases hz u
  · rw [hnil]
    exact ⟨rfl, .inl ⟨rfl, fun s hs hu => absurd hu (hmissing s hs)⟩⟩
  · rw [hrow]
    by_cases halg : s.algorithm = algorithmMax ∨ s.algorithm = algorithmMin
    · obtain ⟨z₁, hclean, hnote⟩ := clean_searchServiceAlarms logs now hz u ((z.firstStatus u s.algorithm).getD 0)
      have hloop : (redoLoop logs now [(u, s.algorithm)]).clean z =
          (z₁.setStatus u ((z.firstStatus u s.algorithm).getD 0), .succeed) := by
        simp [redoLoop, halg, hclean]
      rw [hloop]
      exact ⟨rfl, .inr ⟨s, hs, z₁, hu, halg, hnote, rfl⟩⟩
    · have hnone : s.algorithm = algorithmNone := (hz.algorithms s hs).resolve_right halg
      have hloop : (redoLoop logs now [(u, s.algorithm)]).clean z = (z, .succeed) := by
        simp [redoLoop, hnone, algorithmNone, algorithmMax, algorithmMin]
      rw [hloop]
      refine ⟨rfl, .inl ⟨rfl, ?_⟩⟩
      intro s' hs' hu'
      rw [Table.eq_of_key hz.services hs' hs (hu'.trans hu.symm)]
      exact hnone

theorem redo_inOrder {z : Zabbix} (hz : InOrder z) (u : Id) : InOrder (redo logs now u z) := by
  obtain ⟨-, ⟨he, -⟩ | ⟨s, -, z₁, -, -, hnote, he⟩⟩ := redo_cases logs now hz u
  · rwa [he]
  · rw [he]
    exact setStatus_inOrder hnote.inOrder u _

theorem redo_sameTree {z : Zabbix} (hz : InOrder z) (u : Id) : SameTree z (redo logs now u z) := by
  obtain ⟨-, ⟨he, -⟩ | ⟨s, -, z₁, -, -, hnote, he⟩⟩ := redo_cases logs now hz u
  · rw [he]
    exact .refl z
  · rw [he]
    exact hnote.sameTree.trans (setStatus_sameTree z₁ u _)

theorem redo_mem {z : Zabbix} (hz : InOrder z) {u : Id} {s : Service} (hs : s ∈ (redo logs now u z).services)
    (hu : s.serviceid ≠ u) : s ∈ z.services := by
  obtain ⟨-, ⟨he, -⟩ | ⟨s₀, -, z₁, -, -, hnote, he⟩⟩ := redo_cases logs now hz u
  · rwa [he] at hs
  · rw [he] at hs
    rw [← hnote.services]
    exact (mem_setStatus hs).resolve_left (fun h => hu h.1) |>.2

theorem redo_noted {z : Zabbix} (hz : InOrder z) (u : Id) {x : Id} (h : Noted z x) : Noted (redo logs now u z) x := by
  obtain ⟨-, ⟨he, -⟩ | ⟨s₀, -, z₁, -, -, hnote, he⟩⟩ := redo_cases logs now hz u
  · rwa [he]
  · rw [he]
    intro s hs hx
    by_cases hxu : x = u
    · obtain ⟨-, hv⟩ | ⟨hne, -⟩ := mem_setStatus hs
      · rw [hv, hxu]
        exact hnote.value
      · exact absurd (hx.trans hxu) hne
    · obtain ⟨hu, -⟩ | ⟨-, hmem⟩ := mem_setStatus hs
      · exact absurd (hx.symm.trans hu) hxu
      · rw [hnote.services] at hmem
        exact (hnote.others x hxu).trans (h s hmem hx)

theorem redo_others {z : Zabbix} (hz : InOrder z) {u x : Id} (hxu : x ≠ u) (hx : x ∉ z.ups u) (h : Settled z x) :
    Settled (redo logs now u z) x := by
  obtain ⟨-, ⟨he, -⟩ | ⟨s₀, -, z₁, -, -, hnote, he⟩⟩ := redo_cases logs now hz u
  · rwa [he]
  · rw [he]
    have hx₁ : x ∉ z₁.ups u := by
      rw [hnote.sameTree.ups]
      exact hx
    have h₁ := hnote.settled h
    have hmem : ∀ v, ∀ s ∈ (z₁.setStatus u v).services, s.serviceid = x → s ∈ z₁.services := by
      intro v s hs hsx
      exact ((mem_setStatus hs).resolve_left fun hu => hxu (hsx.symm.trans hu.1)).2
    constructor
    · intro s hs hsx
      rw [statusesBelow_setStatus hx₁]
      exact h₁.highest s (hmem _ s hs hsx) hsx
    · intro s hs hsx
      rw [statusesBelow_setStatus hx₁]
      exact h₁.lowest s (hmem _ s hs hsx) hsx

theorem redo_own {z : Zabbix} (hz : InOrder z) {u : Id} (hu : u ∉ z.ups u) : Settled (redo logs now u z) u := by
  obtain ⟨-, ⟨he, hnone⟩ | ⟨s₀, hs₀, z₁, hs₀u, halg, hnote, he⟩⟩ := redo_cases logs now hz u
  · rw [he]
    constructor
    · intro s hs hsu hmax
      rw [hnone s hs hsu] at hmax
      cases hmax
    · intro s hs hsu hmin
      rw [hnone s hs hsu] at hmin
      cases hmin
  · have hu₁ : u ∉ z₁.ups u := by
      rw [hnote.sameTree.ups]
      exact hu
    have hsame : ∀ s ∈ (redo logs now u z).services, s.serviceid = u →
        s.algorithm = s₀.algorithm ∧ s.status = (z.firstStatus u s₀.algorithm).getD 0 := by
      intro s hs hsu
      rw [he] at hs
      obtain ⟨s', hs', rfl⟩ := Table.mem_update.1 hs
      have hs'u : s'.serviceid = u := by
        by_cases h : s'.serviceid = u
        · exact h
        · simp [h] at hsu
      rw [hnote.services] at hs'
      rw [Table.eq_of_key hz.services hs' hs₀ (hs'u.trans hs₀u.symm)]
      simp [hs₀u]
    have hbelow : (redo logs now u z).statusesBelow u = z.statusesBelow u := by
      rw [he, statusesBelow_setStatus hu₁, hnote.statusesBelow]
    constructor
    · intro s hs hsu hmax hne
      obtain ⟨ha, hv⟩ := hsame s hs hsu
      rw [hbelow] at hne ⊢
      rw [hv, ← ha, hmax]
      exact firstStatus_max hne
    · intro s hs hsu hmin hne
      obtain ⟨ha, hv⟩ := hsame s hs hsu
      rw [hbelow] at hne ⊢
      rw [hv, ← ha, hmin]
      exact firstStatus_min hne

/-! ## The walk -/

/-- The state of a walk: `pending` services have a status whose alarm is
still to come; those of the trigger have the status it gave them. -/
structure Walking (z₀ : Zabbix) (triggerId : Id) (v : Int) (pending : List Id) (z : Zabbix) : Prop where
  inOrder : InOrder z
  same : SameTree z₀ z
  noted : ∀ x, x ∉ pending → Noted z x
  triggered : ∀ s ∈ z.services, s.triggerid = some triggerId → s.status = v

/-- No service of the trigger has others below it. -/
def Leaves (z : Zabbix) (triggerId : Id) : Prop :=
  ∀ s ∈ z.services, s.triggerid = some triggerId → ∀ l ∈ z.servicesLinks, l.serviceupid ≠ s.serviceid

variable {z₀ : Zabbix} {triggerId : Id} {v : Int} {pending : List Id}

theorem SameTree.leaves {z z' : Zabbix} (h : SameTree z z') (hl : Leaves z triggerId) : Leaves z' triggerId := by
  intro s' hs' ht l hlink
  obtain ⟨s, hs, he⟩ := Table.mem_of_map_eq h.services hs'
  simp only [Prod.mk.injEq] at he
  rw [h.links] at hlink
  rw [← he.1]
  exact hl s hs (he.2.2.trans ht) l hlink

theorem walk_redoes (hleaf : Leaves z₀ triggerId) :
    Propagate.Redoes z₀.ups (redo logs now) (Walking z₀ triggerId v pending) Settled where
  keeps := by
    intro n u z hu hz
    refine ⟨redo_inOrder logs now hz.inOrder u, hz.same.trans (redo_sameTree logs now hz.inOrder u), ?_, ?_⟩
    · intro x hx
      exact redo_noted logs now hz.inOrder u (hz.noted x hx)
    · intro s hs ht
      obtain ⟨l, hl, -, hup⟩ := mem_ups.1 hu
      have hsame := hz.same.trans (redo_sameTree logs now hz.inOrder u)
      have hne : s.serviceid ≠ u := by
        intro he
        apply hsame.leaves hleaf s hs ht l
        · rw [hsame.links]
          exact hl
        · exact hup.trans he.symm
      exact hz.triggered s (redo_mem logs now hz.inOrder hs hne) ht
  own := by
    intro u z hz hu
    apply redo_own logs now hz.inOrder
    rwa [hz.same.ups]
  others := by
    intro u z x hz hxu hx h
    apply redo_others logs now hz.inOrder hxu _ h
    rwa [hz.same.ups]

theorem clean_redoLoop (hleaf : Leaves z₀ triggerId) {n : Id} {us : List Id} (hus : us ⊆ z₀.ups n) {z : Zabbix}
    (hz : Walking z₀ triggerId v pending z) :
    (redoLoop logs now (us.flatMap z₀.rowsFor)).clean z = (us.foldl (fun z u => redo logs now u z) z, .succeed) := by
  induction us generalizing z with
  | nil => rfl
  | cons u us ih =>
    obtain ⟨hu, hus⟩ := List.cons_subset.1 hus
    obtain ⟨hret, -⟩ := redo_cases logs now hz.inOrder u
    rw [hz.same.rowsFor u] at hret
    have hfirst : ((redoLoop logs now (z₀.rowsFor u)).clean z).1 = redo logs now u z := by
      rw [redo, hz.same.rowsFor u]
    rw [List.flatMap_cons, clean_redoLoop_append logs now _ _ hret, hfirst]
    exact ih hus ((walk_redoes logs now hleaf).keeps n u z hu hz)

theorem clean_visitLoop {search : Id → Prog Zabbix (Option Ret)} {visit : Zabbix → Id → Option Zabbix}
    {Ok : Zabbix → Prop} (hsearch : ∀ z u z', Ok z → visit z u = some z' →
      Ok z' ∧ ∃ r, (search u).clean z = (z', some r)) {us : List Id} {z z' : Zabbix} (hz : Ok z)
    (h : us.foldlM visit z = some z') : (visitLoop search us).clean z = (z', some .succeed) := by
  induction us generalizing z with
  | nil =>
    obtain rfl : z = z' := by simpa using h
    rfl
  | cons u us ih =>
    rw [List.foldlM_cons] at h
    obtain ⟨z₁, h1, h2⟩ := Option.bind_eq_some_iff.1 h
    obtain ⟨hok, r, hr⟩ := hsearch z u z₁ hz h1
    simp only [visitLoop, clean_bind, hr]
    exact ih hok h2

/-- The recursion of the source is the general walk. -/
theorem clean_searchServiceLinks (hleaf : Leaves z₀ triggerId) {k : Nat} {n : Id} {z z' : Zabbix}
    (hz : Walking z₀ triggerId v pending z) (h : Propagate.visit z₀.ups (redo logs now) k n z = some z') :
    (searchServiceLinks logs now k n).clean z = (z', some .succeed) := by
  induction k generalizing n z z' with
  | zero => cases h
  | succ k ih =>
    have hr : Propagate.Redoes z₀.ups (redo logs now) (Walking z₀ triggerId v pending) Settled :=
      walk_redoes logs now hleaf
    have habove : z.servicesAbove n = (z₀.ups n).flatMap z₀.rowsFor := by
      rw [servicesAbove_eq, hz.same.ups]
      exact congrArg List.flatten (List.map_congr_left fun u _ => hz.same.rowsFor u)
    have hfold : Walking z₀ triggerId v pending ((z₀.ups n).foldl (fun z u => redo logs now u z) z) :=
      Propagate.foldl_keeps hr (List.Subset.refl _) hz
    have hsearch : ∀ z u z', Walking z₀ triggerId v pending z →
        Propagate.visit z₀.ups (redo logs now) k u z = some z' →
        Walking z₀ triggerId v pending z' ∧ ∃ r, (searchServiceLinks logs now k u).clean z = (z', some r) := by
      intro z u z' hz hv
      exact ⟨Propagate.visit_keeps hr hz hv, .succeed, ih hz hv⟩
    have hvisit := clean_visitLoop hsearch hfold h
    simp [searchServiceLinks, habove, clean_redoLoop logs now hleaf (List.Subset.refl _) hz, hfold.same.ups n, hvisit]

/-! ## The services of a trigger -/

/-- Noting the status of a service of the trigger: its alarm is no longer to
come. -/
theorem Walking.note {d : Id} {ds : List Id} {z z' : Zabbix} (h : Walking z₀ triggerId v (d :: ds) z)
    (hd : ∀ s ∈ z₀.services, s.serviceid = d → s.triggerid = some triggerId) (hnote : Note d v z z') :
    Walking z₀ triggerId v ds z' := by
  refine ⟨hnote.inOrder, h.same.trans hnote.sameTree, ?_, ?_⟩
  · intro x hx s hs hsx
    rw [hnote.services] at hs
    by_cases hxd : x = d
    · obtain ⟨s₀, hs₀, he⟩ := Table.mem_of_map_eq h.same.services hs
      simp only [Prod.mk.injEq] at he
      have ht : s.triggerid = some triggerId := by
        rw [← he.2.2]
        exact hd s₀ hs₀ (he.1.trans (hsx.trans hxd))
      rw [h.triggered s hs ht, hxd]
      exact hnote.value
    · rw [hnote.others x hxd]
      exact h.noted x (by simp [hxd, hx]) s hs hsx
  · rw [hnote.services]
    exact h.triggered

theorem clean_serviceLoop (hleaf : Leaves z₀ triggerId) (hirr : ∀ u, u ∉ z₀.ups u) {k : Nat} {ds : List Id}
    (hds : ∀ d ∈ ds, ∀ s ∈ z₀.services, s.serviceid = d → s.triggerid = some triggerId)
    (hk : ∀ d ∈ ds, ∀ z, (Propagate.visit z₀.ups (redo logs now) k d z).isSome) {z : Zabbix}
    (hz : Walking z₀ triggerId v ds z)
    (h : Propagate.SettledBut Settled (fun x => ∃ d ∈ ds, x ∈ z₀.ups d) z) :
    ∃ z', (serviceLoop logs now k v ds).clean z = (z', some .succeed) ∧ Walking z₀ triggerId v [] z' ∧
      ∀ x, Settled z' x := by
  induction ds generalizing z with
  | nil => exact ⟨z, rfl, hz, fun x => h x (by simp)⟩
  | cons d ds ih =>
    obtain ⟨z₁, hclean, hnote⟩ := clean_searchServiceAlarms logs now hz.inOrder d v
    have hz₁ := hz.note (hds d List.mem_cons_self) hnote
    obtain ⟨z₂, hvisit⟩ := Option.isSome_iff_exists.1 (hk d List.mem_cons_self z₁)
    have hr : Propagate.Redoes z₀.ups (redo logs now) (Walking z₀ triggerId v ds) Settled :=
      walk_redoes logs now hleaf
    have hsettled : Propagate.SettledBut Settled (fun x => ∃ d ∈ ds, x ∈ z₀.ups d) z₂ := by
      apply Propagate.visit_settles hr hirr hz₁ _ hvisit
      intro x hx
      apply hnote.settled
      apply h x
      intro ⟨d', hd', hxd⟩
      obtain rfl | hd' := List.mem_cons.1 hd'
      · exact hx (.inl hxd)
      · exact hx (.inr ⟨d', hd', hxd⟩)
    obtain ⟨z', hloop, hwalk, hall⟩ := ih (fun d hd => hds d (List.mem_cons_of_mem _ hd))
      (fun d hd => hk d (List.mem_cons_of_mem _ hd)) (Propagate.visit_keeps hr hz₁ hvisit) hsettled
    refine ⟨z', ?_, hwalk, hall⟩
    simp [serviceLoop, hclean, clean_searchServiceLinks logs now hleaf hz₁ hvisit, hloop]

/-! ## Switching a trigger -/

theorem setTriggered_sameTree (z : Zabbix) (triggerId : Id) (v : Int) : SameTree z (z.setTriggered triggerId v) :=
  ⟨rfl, Table.map_update _ _ _ _ fun _ => rfl, rfl⟩

theorem setTriggered_inOrder {z : Zabbix} (h : InOrder z) (triggerId : Id) (v : Int) :
    InOrder (z.setTriggered triggerId v) := by
  refine ⟨?_, ?_, h.alarms⟩
  · rw [show (z.setTriggered triggerId v).services.map (·.serviceid) = z.services.map (·.serviceid) from
      Table.map_update _ _ _ _ fun _ => rfl]
    exact h.services
  · intro s hs
    obtain ⟨s₀, hs₀, rfl⟩ := Table.mem_update.1 hs
    have ha := h.algorithms s₀ hs₀
    split
    · exact ha
    · exact ha

/-- A service that is above none of the trigger's sees the statuses it saw. -/
theorem statusesBelow_setTriggered {z : Zabbix} {y : Id}
    (hy : ∀ s ∈ z.services, s.triggerid = some triggerId → y ∉ z.ups s.serviceid) (v : Int) :
    (z.setTriggered triggerId v).statusesBelow y = z.statusesBelow y := by
  refine List.flatMap_congr ?_
  intro l hl
  obtain ⟨hl, hup⟩ := List.mem_filter.1 hl
  change ((Table.update (fun s => s.triggerid == some triggerId) (fun s => { s with status := v }) z.services).filter
    (·.serviceid == l.servicedownid)).map (·.status) = _
  have hne : ∀ s ∈ z.services, s.serviceid = l.servicedownid → s.triggerid ≠ some triggerId := by
    intro s hs hd ht
    exact hy s hs ht (mem_ups.2 ⟨l, hl, hd.symm, by simpa using hup⟩)
  revert hne
  induction z.services with
  | nil => exact fun _ => rfl
  | cons s rest ih =>
    intro hne
    have hrest := ih fun s hs => hne s (List.mem_cons_of_mem _ hs)
    by_cases hs : s.serviceid = l.servicedownid
    · have ht := hne s List.mem_cons_self hs
      simpa [Table.update, hs, ht] using hrest
    · by_cases ht : s.triggerid = some triggerId
      · simpa [Table.update, hs, ht] using hrest
      · simpa [Table.update, hs, ht] using hrest

theorem statusesBelow_leaf {z : Zabbix} (hleaf : Leaves z triggerId) {s : Service} (hs : s ∈ z.services)
    (ht : s.triggerid = some triggerId) : z.statusesBelow s.serviceid = [] := by
  have hnone : z.servicesLinks.filter (·.serviceupid == s.serviceid) = [] := by
    rw [List.filter_eq_nil_iff]
    intro l hl he
    exact hleaf s hs ht l hl (by simpa using he)
  rw [Zabbix.statusesBelow, hnone]
  rfl

theorem setTriggered_walking {z : Zabbix} (hz : InOrder z) (hnoted : ∀ x, Noted z x) (triggerId : Id) (v : Int) :
    Walking z triggerId v (z.triggered triggerId) (z.setTriggered triggerId v) := by
  refine ⟨setTriggered_inOrder hz triggerId v, setTriggered_sameTree z triggerId v, ?_, ?_⟩
  · intro x hx s hs hsx
    obtain ⟨s₀, hs₀, rfl⟩ := Table.mem_update.1 hs
    by_cases ht : s₀.triggerid = some triggerId
    · refine absurd (List.mem_map.2 ⟨s₀, List.mem_filter.2 ⟨hs₀, by simpa using ht⟩, ?_⟩) hx
      simpa [ht] using hsx
    · simp only [beq_iff_eq, ht, if_false] at hsx ⊢
      exact hnoted x s₀ hs₀ hsx
  · intro s hs ht
    obtain ⟨s₀, hs₀, rfl⟩ := Table.mem_update.1 hs
    by_cases ht₀ : s₀.triggerid = some triggerId
    · simp [ht₀]
    · simp [ht₀] at ht

theorem setTriggered_settled {z : Zabbix} (hleaf : Leaves z triggerId) (hs : ∀ x, Settled z x) (v : Int) :
    Propagate.SettledBut Settled
      (fun x => ∃ d ∈ z.triggered triggerId, x ∈ z.ups d)
      (z.setTriggered triggerId v) := by
  intro x hx
  have hups : ∀ s ∈ z.services, s.triggerid = some triggerId → x ∉ z.ups s.serviceid := fun s hs ht hup =>
    hx ⟨s.serviceid, List.mem_map_of_mem (List.mem_filter.2 ⟨hs, by simpa using ht⟩), hup⟩
  have hbelow := statusesBelow_setTriggered hups v
  have hmem : ∀ s ∈ (z.setTriggered triggerId v).services, s.serviceid = x → z.statusesBelow x ≠ [] →
      s ∈ z.services := by
    intro s hs hsx hne
    obtain ⟨s₀, hs₀, rfl⟩ := Table.mem_update.1 hs
    by_cases ht : s₀.triggerid = some triggerId
    · have hsx₀ : s₀.serviceid = x := by simpa [ht] using hsx
      rw [← hsx₀] at hne
      exact absurd (statusesBelow_leaf hleaf hs₀ ht) hne
    · simpa [ht] using hs₀
  constructor
  · intro s hs' hsx ha hne
    rw [hbelow] at hne ⊢
    exact (hs x).highest s (hmem s hs' hsx hne) hsx ha hne
  · intro s hs' hsx ha hne
    rw [hbelow] at hne ⊢
    exact (hs x).lowest s (hmem s hs' hsx hne) hsx ha hne

theorem SameTree.triggered {z z' : Zabbix} (h : SameTree z z') : z'.triggered triggerId = z.triggered triggerId := by
  have hshape : ∀ z : Zabbix, z.triggered triggerId =
      ((z.services.map fun s => (s.serviceid, s.algorithm, s.triggerid)).filter (·.2.2 == some triggerId)).map (·.1) := by
    intro z
    simp only [Zabbix.triggered, List.filter_map, List.map_map]
    rfl
  rw [hshape, hshape, h.services]

theorem clean_readStatus (triggerId : Id) (st : Int) (z : Zabbix) :
    (readStatus triggerId st).clean z = (z, z.triggerStatus triggerId st) := by
  unfold readStatus
  by_cases hst : st = triggerStatusEnabled
  · simp [hst]
  · simp [hst, Zabbix.triggerStatus]

/-- Directly above, as the tree has it. -/
def Above (z : Zabbix) (u x : Id) : Prop := ∃ l ∈ z.servicesLinks, l.servicedownid = x ∧ l.serviceupid = u

/-- A tree as Zabbix keeps it, with every status worked out and noted. -/
structure Tree (z : Zabbix) : Prop where
  inOrder : InOrder z
  acyclic : ∀ x, ¬ Relation.TransGen (Above z) x x
  noted : ∀ x, Noted z x
  settled : ∀ x, Settled z x

theorem Tree.wellFounded {z : Zabbix} (hz : Tree z) : WellFounded fun u n => u ∈ z.ups n := by
  have hup : (fun u n => u ∈ z.ups n) = Above z := by
    funext u n
    exact propext mem_ups
  have hnodes : ∀ u n, Above z u n → u ∈ z.servicesLinks.map (·.serviceupid) := by
    intro u n h
    obtain ⟨l, hl, -, hu⟩ := h
    exact List.mem_map.2 ⟨l, hl, hu⟩
  rw [hup]
  exact Propagate.wellFounded_of_acyclic hnodes hz.acyclic

/-- How deep the recursion goes from a service of the tree, at most. -/
def DeepEnough (z : Zabbix) (k : Nat) : Prop :=
  ∀ s ∈ z.services, ∀ (redo : Id → Zabbix → Zabbix) z', (Propagate.visit z.ups redo k s.serviceid z').isSome

theorem Tree.deepEnough {z : Zabbix} (hz : Tree z) : ∃ k₀, ∀ k ≥ k₀, DeepEnough z k := by
  have htotal : ∀ s ∈ z.services,
      ∃ k, ∀ (redo : Id → Zabbix → Zabbix) z', (Propagate.visit z.ups redo k s.serviceid z').isSome :=
    fun s _ => Propagate.visit_total hz.wellFounded s.serviceid
  obtain ⟨k₀, hk₀⟩ := Propagate.exists_bound
    (fun k k' s hle h redo z' => Propagate.isSome_mono hle (h redo z')) htotal
  exact ⟨k₀, fun k hk s hs redo z' => Propagate.isSome_mono hk (hk₀ s hs redo z')⟩

/-- The trigger has been switched: its services have the status it gives
them, and the tree agrees with them. -/
structure Switched (triggerId : Id) (st : Int) (z z' : Zabbix) : Prop where
  tree : Tree z'
  same : SameTree z z'
  status : ∀ s ∈ z'.services, s.triggerid = some triggerId → s.status = z.triggerStatus triggerId st

/-- The run without failures. -/
theorem clean_setService {z : Zabbix} (hz : Tree z) {k : Nat} (hk : DeepEnough z k) (hleaf : Leaves z triggerId)
    (st : Int) :
    ∃ z', (setService logs now k triggerId st).clean z = (z', some .succeed) ∧ Switched triggerId st z z' := by
  have hirr : ∀ u, u ∉ z.ups u := fun u hu => hz.acyclic u (.single (mem_ups.1 hu))
  have hmem : ∀ d ∈ z.triggered triggerId, ∃ s ∈ z.services, s.triggerid = some triggerId ∧ s.serviceid = d := by
    intro d hd
    obtain ⟨s, hs, rfl⟩ := List.mem_map.1 hd
    obtain ⟨hs, ht⟩ := List.mem_filter.1 hs
    exact ⟨s, hs, by simpa using ht, rfl⟩
  have hds : ∀ d ∈ z.triggered triggerId, ∀ s ∈ z.services, s.serviceid = d → s.triggerid = some triggerId := by
    intro d hd s hs hsd
    obtain ⟨s', hs', ht, hd'⟩ := hmem d hd
    rwa [Table.eq_of_key hz.inOrder.services hs hs' (hsd.trans hd'.symm)]
  have hdeep : ∀ d ∈ z.triggered triggerId, ∀ z', (Propagate.visit z.ups (redo logs now) k d z').isSome := by
    intro d hd z'
    obtain ⟨s, hs, -, rfl⟩ := hmem d hd
    exact hk s hs _ z'
  obtain ⟨z', hloop, hwalk, hall⟩ := clean_serviceLoop logs now hleaf hirr hds hdeep
    (setTriggered_walking hz.inOrder hz.noted triggerId (z.triggerStatus triggerId st))
    (setTriggered_settled hleaf hz.settled _)
  have hids : (z.setTriggered triggerId (z.triggerStatus triggerId st)).triggered triggerId = z.triggered triggerId :=
    (setTriggered_sameTree z triggerId _).triggered
  refine ⟨z', by simp [setService, clean_readStatus, hids, hloop], ⟨hwalk.inOrder, ?_, ?_, hall⟩, hwalk.same,
    hwalk.triggered⟩
  · have habove : Above z' = Above z := by
      unfold Above
      rw [hwalk.same.links]
    rw [habove]
    exact hz.acyclic
  · exact fun x => hwalk.noted x List.not_mem_nil

/-- One call of the icon: its time, its trigger, the status it sets, the
statements of it that fail, and whether the transaction it is part of is
committed after it. -/
structure Call where
  now : Nat
  triggerId : Id
  status : Int
  fault : Nat → Bool
  commits : Option Ret → Bool

/-- mirrors src/jobarg_server/jarun/jarun.c:92-132 -/
def Call.make (k : Nat) (z : Zabbix) (c : Call) : Zabbix :=
  ((setService logs c.now k c.triggerId c.status).transact c.fault z c.commits).1

/-- Nothing fails, and a success is committed. -/
def Call.Smooth (c : Call) : Prop := (∀ n, c.fault n = false) ∧ c.commits (some .succeed) = true

theorem make_settles {z : Zabbix} (hz : Tree z) {k : Nat} (hk : DeepEnough z k) (c : Call)
    (hleaf : Leaves z c.triggerId) :
    (c.make logs k z = z ∨ Switched c.triggerId c.status z (c.make logs k z)) ∧
      (c.Smooth → Switched c.triggerId c.status z (c.make logs k z)) := by
  obtain ⟨z', hclean, hsw⟩ := clean_setService logs c.now hz hk hleaf c.status
  unfold Call.make
  by_cases hsp : Spared c.fault 0 ((setService logs c.now k c.triggerId c.status).cost z)
  · rw [transact_clean _ hsp, hclean]
    dsimp only
    by_cases hcommit : c.commits (some .succeed) = true
    · rw [if_pos hcommit]
      exact ⟨.inr hsw, fun _ => hsw⟩
    · rw [if_neg hcommit]
      exact ⟨.inl rfl, fun h => absurd h.2 hcommit⟩
  · rw [transact_hit _ hsp]
    exact ⟨.inl rfl, fun h => absurd (fun n _ _ => h.1 n) hsp⟩

theorem SameTree.deepEnough {z z' : Zabbix} (h : SameTree z z') {k : Nat} (hk : DeepEnough z k) : DeepEnough z' k := by
  intro s' hs' redo z''
  obtain ⟨s, hs, he⟩ := Table.mem_of_map_eq h.services hs'
  simp only [Prod.mk.injEq] at he
  have hups : z'.ups = z.ups := funext h.ups
  rw [hups, ← he.1]
  exact hk s hs redo z''

theorem calls_tree {z : Zabbix} (hz : Tree z) {k : Nat} (hk : DeepEnough z k) {calls : List Call}
    (hleaf : ∀ c ∈ calls, Leaves z c.triggerId) :
    Tree (calls.foldl (Call.make logs k) z) ∧ SameTree z (calls.foldl (Call.make logs k) z) := by
  induction calls generalizing z with
  | nil => exact ⟨hz, .refl z⟩
  | cons c calls ih =>
    have hstep : Tree (c.make logs k z) ∧ SameTree z (c.make logs k z) := by
      obtain he | hsw := (make_settles logs hz hk c (hleaf c List.mem_cons_self)).1
      · rw [he]
        exact ⟨hz, .refl z⟩
      · exact ⟨hsw.tree, hsw.same⟩
    obtain ⟨htree, hsame⟩ := hstep
    obtain ⟨htree', hsame'⟩ := ih htree (hsame.deepEnough hk)
      (fun c hc => hsame.leaves (hleaf c (List.mem_cons_of_mem _ hc)))
    exact ⟨htree', hsame.trans hsame'⟩

/-- A trigger's service below two others that stand one above the other. -/
def threeServices : Zabbix :=
  { services := [⟨1, 0, algorithmMax, some 7⟩, ⟨2, 0, algorithmMax, none⟩, ⟨3, 0, algorithmMin, none⟩]
    servicesLinks := [⟨3, 1⟩, ⟨2, 1⟩, ⟨3, 2⟩]
    serviceAlarms := []
    ids := [⟨0, "service_alarms", "servicealarmid", 0⟩]
    triggers := [⟨7, 0, 1, 4⟩] }

theorem threeServices_tree : Tree threeServices where
  inOrder := ⟨by decide, by decide, ⟨_, rfl, by decide⟩⟩
  acyclic := by
    have hlt : ∀ x y, Above threeServices x y → y < x := by
      intro x y h
      obtain ⟨l, hl, rfl, rfl⟩ := h
      revert l
      decide
    have htrans : ∀ x y, Relation.TransGen (Above threeServices) x y → y < x := by
      intro x y h
      induction h with
      | single h => exact hlt _ _ h
      | tail _ h ih => exact (hlt _ _ h).trans ih
    exact fun x h => Nat.lt_irrefl x (htrans x x h)
  noted := by
    intro x s hs hx
    subst hx
    revert s
    decide
  settled := by
    have hall : ∀ s ∈ threeServices.services, threeServices.statusesBelow s.serviceid ≠ [] →
        s.status ∈ threeServices.statusesBelow s.serviceid ∧
          ∀ v ∈ threeServices.statusesBelow s.serviceid, v = s.status := by
      decide
    intro x
    constructor
    · intro s hs hx _ hne
      subst hx
      obtain ⟨hmem, heq⟩ := hall s hs hne
      exact ⟨hmem, fun v hv => (heq v hv).le⟩
    · intro s hs hx _ hne
      subst hx
      obtain ⟨hmem, heq⟩ := hall s hs hne
      exact ⟨hmem, fun v hv => (heq v hv).ge⟩

def switchOn : Call := ⟨12, 7, triggerStatusEnabled, fun _ => false, fun _ => true⟩

/-- The alarms are in the order of their ids, none above the counter, and
those of one service never have the same value twice in a row. -/
structure History (z : Zabbix) : Prop where
  ids : z.serviceAlarms.Pairwise fun a b => a.servicealarmid < b.servicealarmid
  counter : ∀ r, z.idsRow "service_alarms" "servicealarmid" = some r →
    ∀ a ∈ z.serviceAlarms, a.servicealarmid ≤ r.nextid
  changes : ∀ x, ((z.serviceAlarms.filter (·.serviceid == x)).map (·.value)).IsChain (· ≠ ·)

/-- The newest alarm is the last one. -/
theorem History.newestAlarm {z : Zabbix} (h : History z) (x : Id) :
    z.newestAlarm x = (z.serviceAlarms.filter (·.serviceid == x)).getLast? := by
  have hsorted := h.ids.filter (·.serviceid == x)
  unfold Zabbix.newestAlarm
  generalize z.serviceAlarms.filter (·.serviceid == x) = as at hsorted
  cases hl : as.getLast? with
  | none =>
    rw [List.getLast?_eq_none_iff.1 hl]
    rfl
  | some a =>
    obtain ⟨front, rfl⟩ := List.getLast?_eq_some_iff.1 hl
    apply head_insertionSort (by simp)
    intro b hb hba
    obtain hb | rfl : b ∈ front ∨ b = a := by simpa using hb
    · have hlt := (List.pairwise_append.1 hsorted).2.2 b hb a (by simp)
      exact absurd hba (Nat.not_le.2 hlt)
    · rfl

theorem History.insert {z : Zabbix} (h : History z) {x : Id} {v : Int}
    (hnew : ∀ a, z.newestAlarm x = some a → a.value ≠ v) :
    History ((insertServiceAlarms logs now x v).clean z).1 := by
  have hids := idsRow_bump z "service_alarms" "servicealarmid"
  cases hr : z.idsRow "service_alarms" "servicealarmid" with
  | none =>
    rw [hr] at hids
    have hclean : ((insertServiceAlarms logs now x v).clean z).1 = z.bumpIds "service_alarms" "servicealarmid" := by
      simp [insertServiceAlarms, updateIds, hids]
    rw [hclean]
    refine ⟨h.ids, ?_, h.changes⟩
    intro r hr'
    rw [hids] at hr'
    cases hr'
  | some r =>
    rw [hr] at hids
    have hclean : ((insertServiceAlarms logs now x v).clean z).1 =
        (z.bumpIds "service_alarms" "servicealarmid").addAlarm ⟨r.nextid + 1, x, now, v⟩ := by
      simp [insertServiceAlarms, updateIds, hids]
    rw [hclean]
    refine ⟨?_, ?_, ?_⟩
    · refine List.pairwise_append.2 ⟨h.ids, List.pairwise_singleton _ _, ?_⟩
      intro a ha b hb
      rw [List.mem_singleton.1 hb]
      exact Nat.lt_succ_of_le (h.counter r hr a ha)
    · intro r' hr' a ha
      obtain rfl : { r with nextid := r.nextid + 1 } = r' := by simpa using hids.symm.trans hr'
      obtain ha | rfl : a ∈ z.serviceAlarms ∨ a = ⟨r.nextid + 1, x, now, v⟩ := by
        simpa [Zabbix.addAlarm, Zabbix.bumpIds] using ha
      · exact Nat.le_succ_of_le (h.counter r hr a ha)
      · exact Nat.le_refl _
    · intro y
      by_cases hy : x = y
      · subst hy
        have hfilter : ∀ a : ServiceAlarm, a.serviceid = x → a.value = v →
            ((z.serviceAlarms ++ [a]).filter (·.serviceid == x)).map (·.value) =
              (z.serviceAlarms.filter (·.serviceid == x)).map (·.value) ++ [v] := by
          intro a ha hv
          simp [ha, hv]
        refine (hfilter ⟨r.nextid + 1, x, now, v⟩ rfl rfl).symm ▸ ?_
        refine List.isChain_append.2 ⟨h.changes x, List.isChain_singleton v, ?_⟩
        intro w hw v' hv'
        obtain rfl : v = v' := by simpa using hv'
        rw [List.getLast?_map, ← h.newestAlarm x] at hw
        obtain ⟨a, ha, rfl⟩ := Option.mem_map.1 hw
        exact hnew a ha
      · have hfilter : ∀ a : ServiceAlarm, a.serviceid = x →
            (z.serviceAlarms ++ [a]).filter (·.serviceid == y) = z.serviceAlarms.filter (·.serviceid == y) := by
          intro a ha
          simp [ha, hy]
        refine (hfilter ⟨r.nextid + 1, x, now, v⟩ rfl).symm ▸ ?_
        exact h.changes y

theorem History.search {z : Zabbix} (h : History z) (x : Id) (v : Int) :
    History ((searchServiceAlarms logs now x v).clean z).1 := by
  have hinsert : (∀ a, z.newestAlarm x = some a → a.value ≠ v) →
      History ((do
        match ← insertServiceAlarms logs now x v with
        | .succeed => pure .succeed
        | .fail =>
          queries (logs "JARUNICONZABBIXLINK200010")
          pure .fail : Prog Zabbix Ret).clean z).1 := by
    intro hnew
    have hi := h.insert logs now hnew
    rw [clean_bind]
    generalize (insertServiceAlarms logs now x v).clean z = r at hi ⊢
    obtain ⟨z₁, ret⟩ := r
    cases ret with
    | succeed => exact hi
    | fail => simpa using hi
  unfold searchServiceAlarms
  cases ha : z.newestAlarm x with
  | none => simpa [ha] using hinsert (by simp [ha])
  | some a =>
    by_cases hv : a.value = v
    · simpa [ha, hv] using h
    · simpa [ha, hv] using hinsert (by simp [ha, hv])

theorem History.setStatus {z : Zabbix} (h : History z) (u : Id) (v : Int) : History (z.setStatus u v) :=
  ⟨h.ids, h.counter, h.changes⟩

theorem History.setTriggered {z : Zabbix} (h : History z) (triggerId : Id) (v : Int) :
    History (z.setTriggered triggerId v) :=
  ⟨h.ids, h.counter, h.changes⟩

theorem keeps_search (x : Id) (v : Int) : (searchServiceAlarms logs now x v).Keeps History :=
  fun _ h => h.search logs now x v

theorem keeps_redoLoop (rows : List (Id × Int)) : (redoLoop logs now rows).Keeps History := by
  induction rows with
  | nil => exact .pure _
  | cons row rows ih =>
    obtain ⟨u, alg⟩ := row
    unfold redoLoop
    split
    · refine .bind .select fun o => ?_
      refine .bind (keeps_search logs now u _) fun ret => ?_
      cases ret with
      | fail => exact .bind (.queries _) fun _ => .pure _
      | succeed =>
        refine .bind (.exec fun z h => h.setStatus u _) fun done => ?_
        split
        · exact ih
        · exact .pure _
    · split
      · exact .bind (.queries _) fun _ => .pure _
      · exact ih

theorem keeps_visitLoop {search : Id → Prog Zabbix (Option Ret)} (hs : ∀ u, (search u).Keeps History)
    (us : List Id) : (visitLoop search us).Keeps History := by
  induction us with
  | nil => exact .pure _
  | cons u us ih =>
    refine .bind (hs u) fun ret => ?_
    cases ret with
    | none => exact .pure _
    | some r => exact ih

theorem keeps_searchServiceLinks (k : Nat) (x : Id) : (searchServiceLinks logs now k x).Keeps History := by
  induction k generalizing x with
  | zero => exact .pure _
  | succ k ih =>
    refine .bind .select fun o => ?_
    refine .bind (keeps_redoLoop logs now _) fun ret => ?_
    cases ret with
    | fail => exact .pure _
    | succeed => exact .bind .select fun o => keeps_visitLoop ih _

theorem keeps_serviceLoop (k : Nat) (v : Int) (ds : List Id) : (serviceLoop logs now k v ds).Keeps History := by
  induction ds with
  | nil => exact .pure _
  | cons d ds ih =>
    refine .bind (keeps_search logs now d v) fun ret => ?_
    cases ret with
    | fail => exact .bind (.queries _) fun _ => .pure _
    | succeed =>
      refine .bind (keeps_searchServiceLinks logs now k d) fun ret => ?_
      match ret with
      | none => exact .pure _
      | some .fail => exact .bind (.queries _) fun _ => .pure _
      | some .succeed => exact ih

theorem keeps_setService (k : Nat) (triggerId : Id) (st : Int) : (setService logs now k triggerId st).Keeps History := by
  have hread : (readStatus triggerId st).Keeps History := by
    unfold readStatus
    split
    · exact .bind .select fun _ => .pure _
    · exact .pure _
  refine .bind hread fun v => ?_
  refine .bind (.exec fun z h => h.setTriggered triggerId v) fun done => ?_
  split
  · exact .bind .select fun o => keeps_serviceLoop logs now k v _
  · exact .pure _

/-- Whatever the tree looks like, cycles and unknown algorithms included. -/
theorem switches_history {z : Zabbix} (hz : History z) (k : Nat) (calls : List Call) :
    History (calls.foldl (Call.make logs k) z) := by
  induction calls generalizing z with
  | nil => exact hz
  | cons c calls ih => exact ih ((keeps_setService logs c.now k c.triggerId c.status).transact c.fault hz c.commits)

theorem switches_history_three : History ([switchOn, switchOn].foldl (Call.make (fun _ => 0) 3) threeServices) := by
  apply switches_history
  refine ⟨by decide, ?_, ?_⟩
  · intro r _ a ha
    cases ha
  · exact fun _ => List.isChain_nil

end JobArranger.ZabbixLink

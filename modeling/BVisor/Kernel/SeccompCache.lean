import BVisor.Kernel.Seccomp

/-! A cached result is the result of running all filters, for every task and at any time. -/

namespace BVisor.Kernel

open BVisor.Bpf

variable {data other : SeccompData} {program : Program} {filters : List Program}
  {result ret : BitVec 32} {offset : Nat}

theorem littleEndianBytes_length {width : Nat} (count : Nat) (value : BitVec width) :
    (littleEndianBytes count value).length = count := by
  rw [littleEndianBytes, List.length_map, List.length_range]

theorem SeccompData.marshal_length (data : SeccompData) : data.marshal.length = 64 := by
  have args : (data.args.toList.flatMap (littleEndianBytes 8)).length = 48 := by
    simp only [List.length_flatMap, littleEndianBytes_length, List.map_const',
      Vector.length_toList, List.sum_replicate_nat]
  simp only [SeccompData.marshal, List.length_append, littleEndianBytes_length, args]

theorem SeccompData.marshal_header (sameNr : other.nr = data.nr) (sameArch : other.arch = data.arch)
    (header : offset < 8) : other.marshal[offset]? = data.marshal[offset]? := by
  have inHeader (data : SeccompData) :
      offset < (littleEndianBytes 4 data.nr ++ littleEndianBytes 4 data.arch).length := by
    simpa only [List.length_append, littleEndianBytes_length] using header
  simp only [SeccompData.marshal, List.append_assoc]
  simp only [← List.append_assoc (littleEndianBytes 4 _) (littleEndianBytes 4 _)]
  rw [List.getElem?_append_left (inHeader other), List.getElem?_append_left (inHeader data), sameNr, sameArch]

theorem foreignAccess_none {accessed : List Bool} (none : foreignAccess accessed = none)
    (isAccessed : accessed[offset]? = some true) : offset < 8 := by
  have bound := (List.getElem?_eq_some_iff.mp isAccessed).1
  have own := List.find?_eq_none.mp none offset (List.mem_range.mpr bound)
  by_contra outside
  have notNr : ¬ offset < nrOffset + fieldSize := by simp only [nrOffset, fieldSize]; omega
  have notArch : ¬ offset < archOffset + fieldSize := by simp only [archOffset, fieldSize]; omega
  simp [isAccessed, notNr, notArch] at own

/-- A cacheable result is the filter's result on all data with this number and architecture. -/
theorem checkFilterCacheability_ok (cacheable : checkFilterCacheability program data.marshal = .ok result)
    (sameNr : other.nr = data.nr) (sameArch : other.arch = data.arch) :
    exec nativeEndian program other.marshal = .ok result := by
  obtain ⟨⟨metrics, error⟩, ran, _, _, noninterference⟩ := instrumentedExec_spec nativeEndian program data.marshal
  simp only [checkFilterCacheability, ran, Option.get_some] at cacheable
  cases error with
  | some error => cases cacheable
  | none =>
    cases foreign : foreignAccess metrics.inputAccessed with
    | some offset => simp [foreign] at cacheable
    | none =>
      simp only [foreign, Except.ok.injEq] at cacheable
      subst cacheable
      refine noninterference other.marshal ⟨?_, fun offset accessed => ?_⟩
      · rw [other.marshal_length, data.marshal_length]
      · exact SeccompData.marshal_header sameNr sameArch (foreignAccess_none foreign accessed)

theorem cacheableResult_some (cacheable : cacheableResult data.marshal filters ret = some result)
    (sameNr : other.nr = data.nr) (sameArch : other.arch = data.arch) :
    runFilters other.marshal filters ret = result := by
  induction filters generalizing ret with
  | nil => exact Option.some.inj cacheable
  | cons program rest ih =>
    cases first : checkFilterCacheability program data.marshal with
    | error reason => simp [cacheableResult, first] at cacheable
    | ok thisRet =>
      simp only [cacheableResult, first] at cacheable
      simp only [runFilters, checkFilterCacheability_ok first sameNr sameArch]
      exact ih cacheable

theorem stricter_genuine {thisRet : BitVec 32} (genuine : ret ≠ uncacheableBPFAction) :
    stricter thisRet ret ≠ uncacheableBPFAction := by
  unfold stricter
  split
  · rename_i stricter
    intro isMark
    subst isMark
    have least : ret &&& seccompRetAction ≤ seccompRetAction := by
      rw [BitVec.le_def, BitVec.toNat_and]
      exact Nat.and_le_right
    have action : uncacheableBPFAction &&& seccompRetAction = seccompRetAction := by decide
    rw [action] at stricter
    exact absurd stricter (BitVec.not_lt.mpr least)
  · exact genuine

theorem cacheableResult_genuine {input : Input} (cacheable : cacheableResult input filters ret = some result)
    (genuine : ret ≠ uncacheableBPFAction) : result ≠ uncacheableBPFAction := by
  induction filters generalizing ret with
  | nil => exact Option.some.inj cacheable ▸ genuine
  | cons program rest ih =>
    cases first : checkFilterCacheability program input with
    | error reason => simp [cacheableResult, first] at cacheable
    | ok thisRet =>
      simp only [cacheableResult, first] at cacheable
      exact ih cacheable (stricter_genuine genuine)

theorem seccompRetAllow_genuine : seccompRetAllow ≠ uncacheableBPFAction := by decide

/-- A cache that has been filled in for the filters it stands beside. -/
def TaskSeccomp.Populated (ts : TaskSeccomp) : Prop :=
  ts = populateCache ts.filters ts.cacheAuditNumber

variable {ts : TaskSeccomp}

theorem TaskSeccomp.Populated.entry (populated : ts.Populated) {sysno : Nat} (bound : sysno < maxSyscallNum + 1) :
    ts.cache[sysno]? = some (cacheEntry ts.filters ts.cacheAuditNumber sysno) := by
  have cache := congrArg TaskSeccomp.cache populated
  rw [cache, populateCache, Vector.getElem?_ofFn, dif_pos bound]

theorem TaskSeccomp.Populated.cached (populated : ts.Populated)
    {auditNumber sysno cached : BitVec 32} (found : ts.cached auditNumber sysno = some cached)
    (sameNr : other.nr = sysno) (sameArch : other.arch = auditNumber) :
    runFilters other.marshal ts.filters.reverse seccompRetAllow = cached := by
  unfold TaskSeccomp.cached at found
  split at found
  · rename_i covered
    obtain ⟨sameAudit, lower, upper⟩ := covered
    have bound : sysno.toNat < maxSyscallNum + 1 := by
      rw [BitVec.toInt_eq_toNat_cond] at lower upper
      split at upper <;> omega
    have nr : other.nr = (cacheInput sysno.toNat ts.cacheAuditNumber).nr := by
      rw [sameNr, cacheInput, BitVec.ofNat_toNat, BitVec.setWidth_eq]
    rw [populated.entry bound, cacheEntry] at found
    -- an entry that carries the mark is not returned, whatever made it
    cases cacheable : cacheableResult (cacheInput sysno.toNat ts.cacheAuditNumber).marshal
        ts.filters.reverse seccompRetAllow with
    | none => simp [cacheable] at found
    | some result =>
      simp only [cacheable] at found
      split at found
      · rw [← Option.some.inj found]
        exact cacheableResult_some cacheable nr (sameArch.trans sameAudit)
      · cases found
  · cases found

def CachesPopulated (tasks : Tasks) : Prop :=
  ∀ task ∈ tasks, ∀ ts, task.seccomp = some ts → ts.Populated

variable {task : Task} {tasks : Tasks}

theorem Task.install_populated (installed : (task.install filters).seccomp = some ts) : ts.Populated := by
  rw [← Option.some.inj installed]
  rfl

theorem Task.repopulate_populated (installed : task.repopulate.seccomp = some ts) : ts.Populated := by
  unfold Task.repopulate at installed
  split at installed
  · rename_i none
    rw [none] at installed
    cases installed
  · exact Task.install_populated installed

theorem appendSyscallFilter_populated {after : Tasks} {caller : Nat} {syncAll : Bool}
    (populated : CachesPopulated tasks)
    (appended : appendSyscallFilter tasks caller program syncAll = .ok after) :
    CachesPopulated after := by
  unfold appendSyscallFilter at appended
  split at appended
  · exact Except.ok.inj appended ▸ populated
  split at appended
  · cases appended
  rw [← Except.ok.inj appended]
  intro task member ts installed
  obtain ⟨index, bound, rfl⟩ := List.mem_mapIdx.mp member
  split at installed
  · exact Task.install_populated installed
  · exact populated _ (List.getElem_mem bound) ts installed

theorem Tasks.after_populated (populated : CachesPopulated tasks) (event : Event) :
    CachesPopulated (tasks.after event) := by
  cases event with
  | append caller program syncAll =>
    simp only [Tasks.after]
    cases appended : appendSyscallFilter tasks caller program syncAll with
    | error errno => exact populated
    | ok after => exact appendSyscallFilter_populated populated appended
  | clone parent threadGroup =>
    simp only [Tasks.after]
    cases tasks[parent]? with
    | none => exact populated
    | some task =>
      intro other member ts installed
      rcases List.mem_append.mp member with old | new
      · exact populated other old ts installed
      · rw [List.mem_singleton.mp new] at installed
        exact Task.repopulate_populated installed
  | execve index auditNumber =>
    simp only [Tasks.after]
    intro task member ts installed
    obtain ⟨place, bound, rfl⟩ := List.mem_iff_getElem.mp member
    rw [List.getElem_modify] at installed
    split at installed
    · exact populated _ (List.getElem_mem _) ts installed
    · exact populated _ (List.getElem_mem _) ts installed
  | restore =>
    intro task member ts installed
    obtain ⟨old, _, rfl⟩ := List.mem_map.mp member
    exact Task.repopulate_populated installed

theorem Tasks.run_populated (populated : CachesPopulated tasks)
    (events : List Event) : CachesPopulated (tasks.run events) := by
  induction events generalizing tasks with
  | nil => exact populated
  | cons event rest ih => exact ih (tasks.after_populated populated event)

theorem Task.evaluateSyscallFilters_populated
    (populated : ∀ ts, task.seccomp = some ts → ts.Populated) (sysno : BitVec 32)
    (args : Vector (BitVec 64) 6) (ip : BitVec 64) :
    task.evaluateSyscallFilters sysno args ip = task.runAllFilters sysno args ip := by
  unfold Task.evaluateSyscallFilters Task.runAllFilters
  cases installed : task.seccomp with
  | none => rfl
  | some ts =>
    simp only
    cases found : ts.cached task.auditNumber sysno with
    | none => rfl
    | some cached => exact ((populated ts installed).cached found rfl rfl).symm

/-- The cache is sound: after any events, every task's syscalls get the action of all its filters
on the full data. A result that is cached is never the mark of an uncacheable one, and the
interpreter that decides what is cacheable agrees with the one that runs the filters. -/
theorem seccompCache_sound :
    (∀ (auditNumber : BitVec 32) (events : List Event) (sysno : BitVec 32)
        (args : Vector (BitVec 64) 6) (ip : BitVec 64),
      ((initialTasks auditNumber).run events).map (·.evaluateSyscallFilters sysno args ip) =
        ((initialTasks auditNumber).run events).map (·.runAllFilters sysno args ip)) ∧
    (∀ (filters : List Program) (input : Input),
      cacheableResult input filters seccompRetAllow ≠ some uncacheableBPFAction) ∧
    ∀ (endian : Endianness) (program : Program) (input : Input),
      (instrumentedExec endian program input).map resultOf = some (exec endian program input) := by
  refine ⟨?_, ?_, ?_⟩
  · intro auditNumber events sysno args ip
    have initially : CachesPopulated (initialTasks auditNumber) := by
      intro task member ts installed
      rw [List.mem_singleton.mp member] at installed
      cases installed
    refine List.map_congr_left fun task member => ?_
    exact task.evaluateSyscallFilters_populated (Tasks.run_populated initially events task member) sysno args ip
  · intro filters input cacheable
    exact cacheableResult_genuine cacheable seccompRetAllow_genuine rfl
  · intro endian program input
    obtain ⟨result, ran, _, agrees, _⟩ := instrumentedExec_spec endian program input
    rw [ran, Option.map_some, agrees]

end BVisor.Kernel

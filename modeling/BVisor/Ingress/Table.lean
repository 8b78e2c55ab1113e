import BVisor.Ingress.Sessions

/-! The table of connections and the order of the frames of connections that share an ID. -/

namespace BVisor.Ingress

open List Option

def wordOf (index : Nat) (log : List Entry) : List Out :=
  log.filterMap fun
    | .opened _ => none
    | .emitted session frame => if session = index then some frame else none

/-- The order of what the relay does. Frames follow their OPEN. Of two connections with one ID the
frames of the later one follow all frames of the earlier one, and what the earlier one still emits
after the OPEN of the later one is its CLOSE. Nothing follows the CLOSE of a connection. -/
def InOrder (ids : List (BitVec 32)) : Entry → Entry → Prop
  | .opened first, .opened second => first < second
  | .emitted first _, .opened second => first < second
  | .opened first, .emitted second frame =>
    second < first → ids[second]? = ids[first]? → frame = .close
  | .emitted first frame, .emitted second _ =>
    ids[second]? = ids[first]? → first < second ∨ first = second ∧ frame ≠ .close

def Entry.session : Entry → Nat
  | .opened session => session
  | .emitted session _ => session

structure Table (shared : Shared) (sessions : List Session) : Prop where
  ok : ∀ (index : Nat) (session : Session), sessions[index]? = some session → session.OK index shared
  removed : ∀ (first second : Nat) (earlier later : Session), first < second →
    sessions[first]? = some earlier → sessions[second]? = some later → earlier.id = later.id →
    earlier.live = false
  finished : ∀ (first second : Nat) (earlier later : Session), first < second →
    sessions[first]? = some earlier → sessions[second]? = some later → earlier.id = later.id →
    later.word ≠ [] → earlier.worker = .done
  last : ∀ (index : Nat) (session : Session), sessions[index]? = some session →
    session.worker = .turnedAway → index + 1 = sessions.length
  words : ∀ (index : Nat) (session : Session), sessions[index]? = some session →
    wordOf index shared.log = session.word
  entries : ∀ entry ∈ shared.log, entry.session < sessions.length
  opened : ∀ index < sessions.length, .opened index ∈ shared.log
  order : shared.log.Pairwise (InOrder (sessions.map Session.id))
  room : sessions.countP Session.live ≤ maxConnections

variable {index : Nat} {session session' : Session} {shared shared' : Shared}
  {sessions : List Session} {own : Holder} {frame : Out}

theorem wordOf_append (log : List Entry) (entry : Entry) :
    wordOf index (log ++ [entry]) = wordOf index log ++ wordOf index [entry] := by
  simp [wordOf]

theorem mem_wordOf {log : List Entry} : frame ∈ wordOf index log ↔ .emitted index frame ∈ log := by
  unfold wordOf
  rw [mem_filterMap]
  constructor
  · intro ⟨entry, member, emits⟩
    cases entry with
    | opened other => simp at emits
    | emitted other said =>
      simp only [ite_none_right_eq_some, some.injEq] at emits
      obtain ⟨rfl, rfl⟩ := emits
      exact member
  · intro member
    exact ⟨_, member, by simp⟩

theorem Session.OK.locked_or_done (ok : session.OK index shared) (removed : session.live = false) :
    shared.writeMu = some (.worker index) ∨ session.worker = .done ∨
      session.worker = .turnedAway := by
  have shape := ok.shape
  have held := ok.workerLocked
  cases phase : session.worker with
  | done => exact .inr (.inl rfl)
  | turnedAway => exact .inr (.inr rfl)
  | checkingClose | writingClose => exact .inl (held (by rw [phase]; rfl))
  | _ => simp [Session.Shape, phase, WorkerPhase.stage, removed] at shape

variable {other : Nat}

theorem writeMu_stays {holder : Holder} (held : shared.writeMu = some holder) (differs : own ≠ holder)
    (writeMu : shared'.writeMu = shared.writeMu ∨ shared.writeMu = none ∨ shared.writeMu = some own) :
    shared'.writeMu = some holder := by
  rcases writeMu with same | free | mine
  · exact same.trans held
  · simp [held] at free
  · simp only [held, some.injEq] at mine
    exact absurd mine.symm differs

theorem Session.OK.elsewhere (ok : session.OK other shared) (ctx : shared.ctxDone = true → shared'.ctxDone = true)
    (writeMu : shared'.writeMu = shared.writeMu ∨ shared.writeMu = none ∨
      shared.writeMu = some own) (notWorker : own ≠ .worker other) (notReader : own ≠ .reader other) :
    session.OK other shared' := by
  refine ⟨ok.shape.mono rfl rfl rfl rfl (fun held => held) ctx fun _ held => .inl held, ?_, ?_⟩
  · exact fun locked => writeMu_stays (ok.workerLocked locked) notWorker writeMu
  · exact fun locked => writeMu_stays (ok.readerLocked locked) notReader writeMu

theorem getElem?_set_cases {found : Session} (lookup : (sessions.set index session')[other]? = some found) :
    other = index ∧ found = session' ∨ other ≠ index ∧ sessions[other]? = some found := by
  rw [getElem?_set] at lookup
  split at lookup
  · rename_i same
    split at lookup <;> cases lookup
    exact .inl ⟨same.symm, rfl⟩
  · rename_i differs
    exact .inr ⟨fun same => differs same.symm, lookup⟩

theorem map_id_set (found : sessions[index]? = some session) (id : session'.id = session.id) :
    (sessions.set index session').map Session.id = sessions.map Session.id := by
  obtain ⟨within, rfl⟩ := List.getElem?_eq_some_iff.mp found
  rw [map_set, id, ← List.getElem_map Session.id (h := by simpa using within), set_getElem_self]

theorem countP_live_set (found : sessions[index]? = some session)
    (live : session'.live = true → session.live = true) :
    (sessions.set index session').countP Session.live ≤ sessions.countP Session.live := by
  obtain ⟨within, rfl⟩ := List.getElem?_eq_some_iff.mp found
  rw [countP_set within]
  have counted := boole_getElem_le_countP (p := Session.live) within
  by_cases now : session'.live = true
  · simp only [live now, now, ↓reduceIte] at counted ⊢
    omega
  · simp only [now, Bool.false_eq_true, ↓reduceIte]
    omega

section

variable (table : Table shared sessions)
include table

section

variable (found : sessions[index]? = some session)
include found

/-- A frame fits at the end of the log if its connection is not done, has not said CLOSE, and says
nothing else once removed. -/
theorem Table.order_emitted (notDone : session.worker ≠ .done) (noClose : Out.close ∉ session.word)
    (closes : session.live = false → frame = .close ∨ session.worker = .turnedAway) :
    ∀ entry ∈ shared.log, InOrder (sessions.map Session.id) entry (.emitted index frame) := by
  intro entry member
  have within := table.entries entry member
  obtain ⟨other, lookup⟩ : ∃ other, sessions[entry.session]? = some other := ⟨_, getElem?_eq_getElem within⟩
  cases entry with
  | opened later =>
    intro before sameId
    simp only [Entry.session] at lookup
    simp only [getElem?_map, found, lookup, map_some, some.injEq] at sameId
    rcases closes (table.removed index later session other before found lookup sameId) with
      close | turnedAway
    · exact close
    · have last := table.last index session found turnedAway
      simp only [Entry.session] at within
      omega
  | emitted earlier said =>
    intro sameId
    simp only [Entry.session] at lookup
    simp only [getElem?_map, found, lookup, map_some, some.injEq] at sameId
    have spoken : said ∈ other.word := by
      rw [← table.words earlier other lookup]
      exact mem_wordOf.mpr member
    rcases Nat.lt_trichotomy earlier index with before | rfl | after
    · exact .inl before
    · rw [found] at lookup
      cases lookup
      exact .inr ⟨rfl, fun close => noClose (close ▸ spoken)⟩
    · have done := table.finished index earlier session other after found lookup sameId (ne_nil_of_mem spoken)
      exact absurd done notDone

theorem Table.finished_of_locked {earlier : Session} (before : other < index)
    (lookup : sessions[other]? = some earlier) (sameId : earlier.id = session.id)
    (held : shared.writeMu = some own) (notWorker : own ≠ .worker other) :
    earlier.worker = .done := by
  have removed := table.removed other index earlier session before lookup found sameId
  rcases (table.ok other earlier lookup).locked_or_done removed with locked | done | turnedAway
  · rw [held, some.injEq] at locked
    exact absurd locked notWorker
  · exact done
  · have last := table.last other earlier lookup turnedAway
    have within := (List.getElem?_eq_some_iff.mp found).1
    omega

theorem Table.update (ok : session'.OK index shared') (effect : Effect own index session shared session' shared')
    (notWorker : ∀ other, other ≠ index → own ≠ .worker other)
    (notReader : ∀ other, other ≠ index → own ≠ .reader other)
    (last : session'.worker = .turnedAway → session.worker = .turnedAway) :
    Table shared' (sessions.set index session') where
  ok := by
    intro other found' lookup
    rcases getElem?_set_cases lookup with ⟨rfl, rfl⟩ | ⟨differs, lookup⟩
    · exact ok
    · exact (table.ok other found' lookup).elsewhere effect.ctxDone effect.writeMu
        (notWorker other differs) (notReader other differs)
  removed := by
    intro first second earlier later before lookupFirst lookupSecond sameId
    rcases getElem?_set_cases lookupFirst with ⟨rfl, rfl⟩ | ⟨_, lookupEarlier⟩
    · rcases getElem?_set_cases lookupSecond with ⟨rfl, rfl⟩ | ⟨_, lookupLater⟩
      · exact absurd before (Nat.lt_irrefl _)
      · have gone := table.removed first second session later before found lookupLater
          (effect.id.symm.trans sameId)
        exact Bool.eq_false_iff.mpr fun live => by simp [effect.live live] at gone
    · rcases getElem?_set_cases lookupSecond with ⟨rfl, rfl⟩ | ⟨_, lookupLater⟩
      · exact table.removed first second earlier session before lookupEarlier found (sameId.trans effect.id)
      · exact table.removed first second earlier later before lookupEarlier lookupLater sameId
  finished := by
    intro first second earlier later before lookupFirst lookupSecond sameId spoken
    rcases getElem?_set_cases lookupFirst with ⟨rfl, rfl⟩ | ⟨differs, lookupEarlier⟩
    · rcases getElem?_set_cases lookupSecond with ⟨rfl, rfl⟩ | ⟨_, lookupLater⟩
      · exact absurd before (Nat.lt_irrefl _)
      · exact effect.done (table.finished first second session later before found lookupLater
          (effect.id.symm.trans sameId) spoken)
    · rcases getElem?_set_cases lookupSecond with ⟨rfl, rfl⟩ | ⟨_, lookupLater⟩
      · rcases effect.frames with ⟨word, _⟩ | ⟨frame, _, _, held, _⟩
        · exact table.finished first second earlier session before lookupEarlier found
            (sameId.trans effect.id) (word ▸ spoken)
        · exact table.finished_of_locked found before lookupEarlier (sameId.trans effect.id) held
            (notWorker first differs)
      · exact table.finished first second earlier later before lookupEarlier lookupLater sameId spoken
  last := by
    intro other found' lookup turnedAway
    rw [length_set]
    rcases getElem?_set_cases lookup with ⟨rfl, rfl⟩ | ⟨_, lookup⟩
    · exact table.last other session found (last turnedAway)
    · exact table.last other found' lookup turnedAway
  words := by
    intro other found' lookup
    rcases effect.frames with ⟨word, log⟩ | ⟨frame, word, log, _⟩
    · rw [log]
      rcases getElem?_set_cases lookup with ⟨rfl, rfl⟩ | ⟨_, lookup⟩
      · rw [word]
        exact table.words other session found
      · exact table.words other found' lookup
    · rw [log, wordOf_append]
      rcases getElem?_set_cases lookup with ⟨rfl, rfl⟩ | ⟨differs, lookup⟩
      · rw [word, table.words other session found]
        simp [wordOf]
      · rw [table.words other found' lookup]
        simp [wordOf, differs.symm]
  entries := by
    rw [length_set]
    rcases effect.frames with ⟨_, log⟩ | ⟨frame, _, log, _⟩
    · rw [log]
      exact table.entries
    rw [log]
    intro entry member
    rcases mem_append.mp member with member | member
    · exact table.entries entry member
    · rw [mem_singleton.mp member]
      exact (List.getElem?_eq_some_iff.mp found).1
  opened := by
    rw [length_set]
    intro other within
    have member := table.opened other within
    rcases effect.frames with ⟨_, log⟩ | ⟨frame, _, log, _⟩
    · rw [log]
      exact member
    · rw [log]
      exact mem_append_left _ member
  order := by
    rw [map_id_set found effect.id]
    rcases effect.frames with ⟨_, log⟩ | ⟨frame, _, log, _, notDone, noClose, closes⟩
    · rw [log]
      exact table.order
    rw [log, pairwise_append]
    refine ⟨table.order, pairwise_singleton _ _, fun entry member emitted isLast => ?_⟩
    rw [mem_singleton.mp isLast]
    exact table.order_emitted found notDone noClose closes entry member
  room := Nat.le_trans (countP_live_set found effect.live) table.room

end

omit table in
theorem getElem?_append_cases {found : Session} (lookup : (sessions ++ [session])[other]? = some found) :
    other = sessions.length ∧ found = session ∨
      other < sessions.length ∧ sessions[other]? = some found := by
  rcases Nat.lt_or_ge other sessions.length with within | beyond
  · rw [getElem?_append_left within] at lookup
    exact .inr ⟨within, lookup⟩
  · rw [getElem?_append_right beyond, getElem?_singleton] at lookup
    split at lookup <;> cases lookup
    exact .inl ⟨by omega, rfl⟩

omit table in
theorem InOrder.extend {ids : List (BitVec 32)} {id : BitVec 32} {first second : Entry}
    (order : InOrder ids first second) (firstWithin : first.session < ids.length)
    (secondWithin : second.session < ids.length) : InOrder (ids ++ [id]) first second := by
  cases first <;> cases second <;>
    simp only [Entry.session] at firstWithin secondWithin <;>
    simp only [InOrder, getElem?_append_left firstWithin,
      getElem?_append_left secondWithin] at order ⊢ <;>
    exact order

theorem Table.opening
    (fresh : ∀ (index : Nat) (earlier : Session), sessions[index]? = some earlier →
      earlier.id = session.id → earlier.live = false)
    (nobody : ∀ (index : Nat) (earlier : Session), sessions[index]? = some earlier →
      earlier.worker ≠ .turnedAway) (ok : session.OK sessions.length shared) (silent : session.word = [])
    (room : session.live = true → sessions.countP Session.live < maxConnections) :
    Table { shared with log := shared.log ++ [.opened sessions.length] }
      (sessions ++ [session]) where
  ok := by
    intro other found lookup
    rcases getElem?_append_cases lookup with ⟨rfl, rfl⟩ | ⟨_, lookup⟩
    · exact ⟨ok.shape, ok.workerLocked, ok.readerLocked⟩
    · have known := table.ok other found lookup
      exact ⟨known.shape, known.workerLocked, known.readerLocked⟩
  removed := by
    intro first second earlier later before lookupFirst lookupSecond sameId
    rcases getElem?_append_cases lookupFirst with ⟨rfl, rfl⟩ | ⟨_, lookupEarlier⟩
    · have within := (List.getElem?_eq_some_iff.mp lookupSecond).1
      simp only [length_append, length_singleton] at within
      omega
    · rcases getElem?_append_cases lookupSecond with ⟨rfl, rfl⟩ | ⟨_, lookupLater⟩
      · exact fresh first earlier lookupEarlier sameId
      · exact table.removed first second earlier later before lookupEarlier lookupLater sameId
  finished := by
    intro first second earlier later before lookupFirst lookupSecond sameId spoken
    rcases getElem?_append_cases lookupSecond with ⟨rfl, rfl⟩ | ⟨within, lookupLater⟩
    · exact absurd silent spoken
    · rcases getElem?_append_cases lookupFirst with ⟨rfl, rfl⟩ | ⟨_, lookupEarlier⟩
      · omega
      · exact table.finished first second earlier later before lookupEarlier lookupLater sameId spoken
  last := by
    intro other found lookup turnedAway
    rcases getElem?_append_cases lookup with ⟨rfl, rfl⟩ | ⟨_, lookup⟩
    · simp
    · exact absurd turnedAway (nobody other found lookup)
  words := by
    intro other found lookup
    simp only [wordOf_append]
    rcases getElem?_append_cases lookup with ⟨rfl, rfl⟩ | ⟨_, lookup⟩
    · rw [silent]
      simp only [wordOf, filterMap_cons_none, filterMap_nil, append_nil]
      apply eq_nil_iff_forall_not_mem.mpr
      intro frame member
      have within := table.entries _ (mem_wordOf.mp member)
      exact Nat.lt_irrefl _ within
    · rw [table.words other found lookup]
      simp [wordOf]
  entries := by
    intro entry member
    rw [length_append, length_singleton]
    rcases mem_append.mp member with member | member
    · exact Nat.lt_succ_of_lt (table.entries entry member)
    · rw [mem_singleton.mp member]
      exact Nat.lt_succ_self _
  opened := by
    intro other within
    rw [length_append, length_singleton] at within
    rcases Nat.lt_succ_iff_lt_or_eq.mp within with known | rfl
    · exact mem_append_left _ (table.opened other known)
    · simp
  order := by
    rw [map_append, map_singleton, pairwise_append]
    refine ⟨?_, pairwise_singleton _ _, ?_⟩
    · apply table.order.imp_of_mem
      intro first second firstMember secondMember order
      apply order.extend
      · simpa using table.entries first firstMember
      · simpa using table.entries second secondMember
    · intro entry member opened isLast
      rw [mem_singleton.mp isLast]
      have within := table.entries entry member
      cases entry <;> exact within
  room := by
    rw [countP_append, countP_singleton]
    have known := table.room
    split
    · rename_i live
      exact room live
    · exact known

theorem Table.share (done : shared.ctxDone = true → shared'.ctxDone = true)
    (writeMu : shared'.writeMu = shared.writeMu ∨ shared.writeMu = none ∨
      shared.writeMu = some .dispatcher) (log : shared'.log = shared.log) :
    Table shared' sessions := by
  obtain ⟨ok, removed, finished, last, words, entries, opened, order, room⟩ := table
  refine ⟨?_, removed, finished, last, log ▸ words, log ▸ entries, log ▸ opened, log ▸ order, room⟩
  intro index session found
  exact (ok index session found).elsewhere done writeMu nofun nofun

end

end BVisor.Ingress

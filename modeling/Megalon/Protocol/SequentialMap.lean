import Megalon.Protocol.CallStages
import Megalon.Protocol.SoloFacts

/-!
Contract: `Put` and `Get` of one thread are those of a map from keys to byte arrays.

Owns: the map and its operations, memory as the only thread that uses it sees it, which map the
pages stand for at each program counter, and that every sequence of calls that return is one of
the map.

Does not own: calls of several threads.
-/

namespace Megalon.Protocol

open Function Core Foundations Index

/-! ### The map -/

/-- The bytes of the keys that have been put, as far as a put covers them. -/
abbrev KvMap (Key : Type) := Key → Option (Nat → Option UInt8)

/-- A call that has returned. -/
structure Completed (Key : Type) where
  call : Call Key
  result : Nat
  bytes : List UInt8

def Call.source {Key : Type} (call : Call Key) : Nat → UInt8 := call.data.getD fun _ => 0

section

variable {Key : Type} [BlockKey Key]

/-- The first `n` bytes of the call over what earlier puts have left. -/
def KvMap.put (map : KvMap Key) (call : Call Key) (n : Nat) : KvMap Key :=
  update map call.key (some fun i =>
    if i < n then some (call.source i) else (map call.key).bind fun page => page i)

/-- What `Put` and `Get` do to the map and return. -/
inductive KvMap.Step (map : KvMap Key) : Completed Key → KvMap Key → Prop
  | put {call} (kind : call.kind = .put) :
      Step map ⟨call, call.count, []⟩ (map.put call call.count)
  /-- There is no slot for the key. -/
  | full {call} (kind : call.kind = .put) : Step map ⟨call, 0, []⟩ map
  | missing {call} (kind : call.kind = .get) (absent : map call.key = none) :
      Step map ⟨call, 0, []⟩ map
  | found {call page bytes} (kind : call.kind = .get) (present : map call.key = some page)
      (length : bytes.length = call.count)
      (covered : ∀ i value, i < call.count → page i = some value → bytes[i]? = some value) :
      Step map ⟨call, call.count, bytes⟩ map

/-- A sequence of calls, from the map that has no key. -/
inductive KvMap.Run : List (Completed Key) → KvMap Key → Prop
  | nil : Run [] fun _ => none
  | snoc {history map map' completed} (before : Run history map)
      (step : KvMap.Step map completed map') : Run (history ++ [completed]) map'

@[simp]
theorem put_same (map : KvMap Key) (call : Call Key) (n : Nat) :
    map.put call n call.key = some fun i =>
      if i < n then some (call.source i) else (map call.key).bind fun page => page i :=
  update_self ..

theorem put_of_ne (map : KvMap Key) (call : Call Key) (n : Nat) {key : Key}
    (other : key ≠ call.key) : map.put call n key = map key :=
  update_of_ne other ..

end

/-! ### Memory of one host -/

/-- Host `h` sees one content of the pages as long as no other host loads or stores. -/
structure PageMemory.SeenBy {Host Mem : Type} (memory : PageMemory Host Mem) (h : Host)
    (alone : Mem → Prop) (contents : Mem → Pages) : Prop where
  initial : ∀ m, memory.initial m → alone m
  load : ∀ m slot i, alone m → (memory.load m h slot i).1 = contents m slot i ∧
    alone (memory.load m h slot i).2 ∧ contents (memory.load m h slot i).2 = contents m
  store : ∀ m slot i value, alone m → alone (memory.store m h slot i value) ∧
    contents (memory.store m h slot i value) = (contents m).set slot i value
  flushLine : ∀ m h' slot line, alone m → alone (memory.flushLine m h' slot line) ∧
    contents (memory.flushLine m h' slot line) = contents m

section

variable {Host : Type} [DecidableEq Host]

def viewedBy (lineSize : Nat) (h : Host) (m : CachedPages Host) : Pages :=
  fun slot i => m.view h (slot, i / lineSize) (i % lineSize)

theorem seenBy_privateCacheMemory (lineSize : Nat) (h : Host) :
    (privateCacheMemory Host lineSize).SeenBy h (Memory.OnlyBy h) (viewedBy lineSize h) where
  initial := fun m (empty : ∀ h a, m.cache h a = none) =>
    ⟨fun k b _ => empty k b, fun b line present => by simp [empty] at present⟩
  load := fun m slot i only => by
    refine ⟨rfl, only.fill _, ?_⟩
    funext slot' i'
    simp only [viewedBy, privateCacheMemory, Memory.view_fill]
  store := fun m slot i value only => by
    refine ⟨only.store _ _, ?_⟩
    have same := Pages.ofLines_update lineSize slot i (m.view h) value
    rw [← Memory.view_store] at same
    exact same
  flushLine := fun m h' slot line only => by
    obtain ⟨stays, same⟩ := only.flush h' (slot, line)
    refine ⟨stays, ?_⟩
    funext slot' i'
    simp only [viewedBy, privateCacheMemory, same]

end

section

variable {Key Mem : Type} [BlockKey Key] {cfg : Config Key Mem}
  {t : Nat} {alone : Mem → Prop} {contents : Mem → Pages}

def Act.bytesAfter (pages : Pages) : Act Key → Pages
  | .storeByte slot i value => pages.set slot i value
  | _ => pages

section

variable {s s' : cfg.Shared} {act : Act Key} {reply : act.Reply cfg.nodes}

theorem seen_perform (seen : cfg.memory.SeenBy (cfg.replica t) alone contents)
    (before : alone s.pages) (acted : perform cfg t s act = some (s', reply)) :
    alone s'.pages ∧ contents s'.pages = act.bytesAfter (contents s.pages) := by
  cases act with
  | loadByte slot i =>
    cases acted
    exact (seen.load s.pages slot i before).2
  | storeByte slot i value =>
    cases acted
    exact seen.store s.pages slot i value before
  | flushLine slot line =>
    cases acted
    exact seen.flushLine s.pages _ slot line before
  | _ =>
    rw [(perform_frame acted).pages rfl]
    exact ⟨before, rfl⟩

theorem seen_flushLines (seen : cfg.memory.SeenBy (cfg.replica t) alone contents) {m : Mem}
    (before : alone m) (h : Fin cfg.nodes) (slot lines : Nat) :
    alone (cfg.memory.flushLines m h slot lines) ∧
      contents (cfg.memory.flushLines m h slot lines) = contents m := by
  induction lines with
  | zero => exact ⟨before, rfl⟩
  | succ lines ih =>
    obtain ⟨stays, same⟩ := seen.flushLine _ h slot lines ih.1
    exact ⟨stays, same.trans ih.2⟩

end

/-! ### The map the pages stand for -/

section

variable {map : KvMap Key} {s s' : cfg.Shared}

/-- The slot of a key, in log order. -/
abbrev publishedSlot (s : cfg.Shared) (key : Key) : Option Nat :=
  (latestPages s.log).slot key

/-- The keys of the map are those with a page, and a page has the bytes the map has. -/
structure Represents (contents : Mem → Pages) (map : KvMap Key) (s : cfg.Shared) :
    Prop where
  keys : ∀ key, (map key).isSome = (publishedSlot s key).isSome
  bytes : ∀ key page slot, map key = some page → publishedSlot s key = some slot →
    ∀ i value, page i = some value → contents s.pages slot i = value

theorem Represents.frame (before : Represents contents map s)
    (slots : ∀ key, publishedSlot s' key = publishedSlot s key)
    (same : contents s'.pages = contents s.pages) : Represents contents map s' where
  keys := fun key => by rw [slots, before.keys]
  bytes := fun key page slot present published => by
    rw [same]
    exact before.bytes key page slot present ((slots key).symm.trans published)

theorem Represents.fill (before : Represents contents map s) {slot i : Nat} {value : UInt8}
    (unpublished : ∀ key, publishedSlot s key ≠ some slot) (log : s'.log = s.log)
    (set : contents s'.pages = (contents s.pages).set slot i value) :
    Represents contents map s' where
  keys := fun key => by rw [publishedSlot, log, before.keys]
  bytes := fun key page slot' present published j byte covered => by
    rw [publishedSlot, log] at published
    have other : slot' ≠ slot := fun same => unpublished key (same ▸ published)
    rw [set, Pages.set_of_ne _ _ fun equal => other equal.1]
    exact before.bytes key page slot' present published j byte covered

variable {call : Call Key} {slot : Nat}

theorem Represents.absent {key : Key} (before : Represents contents map s)
    (absent : publishedSlot s key = none) : map key = none := by
  have keys := before.keys key
  rw [absent, Option.isSome_none, Option.isSome_eq_false_iff] at keys
  exact Option.isNone_iff_eq_none.mp keys

theorem Represents.present {key : Key} (before : Represents contents map s)
    (published : publishedSlot s key = some slot) : ∃ page, map key = some page := by
  rw [← Option.isSome_iff_exists, before.keys, published, Option.isSome_some]

theorem Represents.put_zero (before : Represents contents map s)
    (published : publishedSlot s call.key = some slot) :
    Represents contents (map.put call 0) s := by
  have same : map.put call 0 = map := by
    obtain ⟨page, present⟩ := before.present published
    rw [KvMap.put, update_eq_self_iff, present]
    simp
  rw [same]
  exact before

theorem Represents.put_succ {i : Nat} (before : Represents contents (map.put call i) s)
    (published : publishedSlot s call.key = some slot)
    (distinct : ∀ key, publishedSlot s key = some slot → key = call.key) (log : s'.log = s.log)
    (set : contents s'.pages = (contents s.pages).set slot i (call.source i)) :
    Represents contents (map.put call (i + 1)) s' where
  keys := fun key => by
    rw [publishedSlot, log, ← before.keys key]
    by_cases same : key = call.key
    · rw [same, put_same, put_same, Option.isSome_some, Option.isSome_some]
    · rw [put_of_ne _ _ _ same, put_of_ne _ _ _ same]
  bytes := fun key page slot' present published' j value covered => by
    rw [publishedSlot, log] at published'
    rw [set]
    by_cases same : key = call.key
    · subst same
      obtain rfl : slot' = slot := Option.some.inj (published'.symm.trans published)
      rw [put_same, Option.some.injEq] at present
      subst present
      by_cases here : j = i
      · subst here
        simp only [Nat.lt_succ_self, if_true, Option.some.injEq] at covered
        rw [Pages.set_same, covered]
      · rw [Pages.set_of_ne _ _ fun equal => here equal.2]
        refine before.bytes call.key _ slot' (put_same ..) published j value ?_
        have order : j < i ↔ j < i + 1 := by omega
        simpa only [order] using covered
    · have other : slot' ≠ slot := fun equal => same (distinct key (equal ▸ published'))
      rw [Pages.set_of_ne _ _ fun equal => other equal.1]
      rw [put_of_ne _ _ _ same] at present
      exact before.bytes key page slot' (by rw [put_of_ne _ _ _ same]; exact present) published'
        j value covered

theorem Represents.insert {n : Nat} (before : Represents contents map s)
    (absent : publishedSlot s call.key = none) (published : publishedSlot s' call.key = some slot)
    (others : ∀ key, key ≠ call.key → publishedSlot s' key = publishedSlot s key)
    (pages : s'.pages = s.pages) (filled : ∀ x, x < n → contents s.pages slot x = call.source x) :
    Represents contents (map.put call n) s' where
  keys := fun key => by
    by_cases same : key = call.key
    · rw [same, put_same, published, Option.isSome_some, Option.isSome_some]
    · rw [put_of_ne _ _ _ same, others key same, before.keys]
  bytes := fun key page slot' present published' j value covered => by
    rw [pages]
    by_cases same : key = call.key
    · subst same
      obtain rfl : slot' = slot := Option.some.inj (published'.symm.trans published)
      rw [put_same, Option.some.injEq] at present
      subst present
      simp only [before.absent absent, Option.bind_none] at covered
      split at covered
      · rename_i inside
        rw [filled j inside]
        exact Option.some.inj covered
      · cases covered
    · rw [put_of_ne _ _ _ same] at present
      rw [others key same] at published'
      exact before.bytes key page slot' present published' j value covered

end

/-! ### The progress of a call -/

/-- Whether a program counter is one of a writing call only, or one of a reading call only. -/
def Pc.mode {nodes : Nat} : Pc Key nodes → Option Bool
  | .readSeqBegin _ _ | .readLocalSeq _ _ _ | .readForget _ _ | .readFlush _ _ | .readCopy _ _ _
  | .readNotified _ _ _ | .readRetry _ _ _ | .readRemember _ _ => some false
  | .idle | .returned _ _ | .crashed | .localCopy | .anchorCtail | .anchorLookup _
  | .anchorStore _ => none
  | _ => some true

section

variable {call : Call Key} {choice : Nat} {pc pc' : cfg.Pc} {act : Act Key}
  {reply : act.Reply cfg.nodes}

theorem mode_move (kind : call.kind ≠ .read) (move : Move cfg t call choice pc act reply pc')
    {writes : Bool} (mode : pc'.mode = some writes) :
    pc.mode = some writes ∨ call.isWrite = writes := by
  cases move with
  | readMissing missing => exact absurd missing kind
  | readTracked reads | readUntracked reads =>
    cases mode
    exact .inr reads
  | writeMissing writes | writeReadOnly writes | writeTracked writes =>
    cases mode
    exact .inr writes
  | _ =>
    first
      | exact .inl mode
      | cases mode

end

section

variable (cfg) (contents : Mem → Pages) (call : Call Key) (map : KvMap Key)
  (s : cfg.Shared)

def ReadSoFar (bytes : List UInt8) : Prop :=
  ∃ page, map call.key = some page ∧
    ∀ i value, i < bytes.length → page i = some value → bytes[i]? = some value

/-- The first `n` bytes of a new slot are there. -/
def FilledTo (slot n : Nat) : Prop :=
  ∀ x, x < n → contents s.pages slot x = call.source x

/-- What the pages stand for while a call on `map` is in progress. -/
def Pc.Progress : cfg.Pc → Prop
  | .readCopy _ _ bytes => Represents contents map s ∧ ReadSoFar call map bytes ∧
      bytes.length ≤ call.count
  | .readNotified _ _ bytes | .readRetry _ _ bytes | .readRemember _ bytes =>
    Represents contents map s ∧ ReadSoFar call map bytes ∧ bytes.length = call.count
  | .createFill slot _ i => Represents contents map s ∧ FilledTo cfg contents call s slot i
  | .createFlush slot _ _ | .createInsert slot _ =>
    Represents contents map s ∧ FilledTo cfg contents call s slot call.count
  | .writeCopy _ _ i => Represents contents (map.put call i) s ∧ i ≤ call.count
  | .createWait _ _ _ _ | .createSeqEnd _ | .writeFlush _ _ _ | .writeSeqEnd _ _ | .writeWrap _
  | .writeWrapWait _ _ | .writeRemember _ _ => Represents contents (map.put call call.count) s
  | _ => Represents contents map s

end

def Answered {nodes : Nat} (map : KvMap Key) (call : Call Key) (map' : KvMap Key) :
    Pc Key nodes → Prop
  | .returned result bytes => map.Step ⟨call, result, bytes⟩ map'
  | _ => map' = map

variable (cfg) in
/-- The calls of the result. -/
structure Call.Simple (call : Call Key) : Prop where
  kind : call.kind = .put ∨ call.kind = .get
  data : call.kind = .put → call.data.isSome = true
  offset : call.offset = 0
  count : 1 ≤ call.count ∧ call.count ≤ cfg.slotSize
  notNull : call.key ≠ BlockKey.nullBlockId

section

variable {call : Call Key} (simple : call.Simple cfg)

include simple

theorem Call.Simple.put_of_isWrite (writes : call.isWrite = true) : call.kind = .put := by
  rcases simple.kind with put | get
  · exact put
  · simp [Call.isWrite, get] at writes

theorem Call.Simple.get_of_reads (reads : call.isWrite = false) : call.kind = .get := by
  rcases simple.kind with put | get
  · simp [Call.isWrite, put] at reads
  · exact get

theorem Call.Simple.bytesWrite : call.bytesWrite cfg = call.count := by
  rw [Call.bytesWrite, simple.offset, Nat.sub_zero, Nat.min_eq_left simple.count.2]

theorem Call.Simple.bytesRead : call.bytesRead cfg = call.count :=
  Nat.min_eq_left simple.count.2

theorem Call.Simple.data_eq (put : call.kind = .put) : call.data = some call.source := by
  obtain ⟨buffer, given⟩ := Option.isSome_iff_exists.mp (simple.data put)
  rw [Call.source, given, Option.getD_some]

theorem Call.Simple.content (put : call.kind = .put) :
    (call.content cfg t).1 = copyOf call.source call.count := by
  simp only [Call.content, put, simple.data_eq put]

end

section

variable {call : Call Key} {choice : Nat} {pc pc' : cfg.Pc} {map : KvMap Key}
  {s : cfg.State} {shared : cfg.Shared}

theorem represents_perform {act : Act Key} {reply : act.Reply cfg.nodes}
    (acted : perform cfg t s.shared act = some (shared, reply))
    (kept : contents shared.pages = contents s.shared.pages)
    (notInsert : ∀ key slot wmeta, act ≠ .submit (.checkAndInsert key slot wmeta))
    (map : KvMap Key) (before : Represents contents map s.shared) :
    Represents contents map shared := by
  refine before.frame (fun key => ?_) kept
  rcases perform_log acted with same | ⟨request, rfl, grown⟩
  · rw [publishedSlot, same]
  · rw [publishedSlot, grown, latestPages_append]
    rcases request.slot_apply_cases (latestPages s.shared.log) key with
      same | ⟨slot, wmeta, rfl, _, _⟩
    · exact same
    · exact absurd rfl (notInsert key slot wmeta)

theorem ReadSoFar.concat {bytes : List UInt8} {value : UInt8} (sofar : ReadSoFar call map bytes)
    (next : ∀ page byte, map call.key = some page → page bytes.length = some byte → value = byte) :
    ReadSoFar call map (bytes ++ [value]) := by
  obtain ⟨page, present, known⟩ := sofar
  refine ⟨page, present, fun i byte inside covered => ?_⟩
  rw [List.length_append, List.length_singleton] at inside
  by_cases old : i < bytes.length
  · rw [List.getElem?_append_left old]
    exact known i byte old covered
  · obtain rfl : i = bytes.length := by omega
    rw [List.getElem?_concat_length, next page byte present covered]

section

variable {u : cfg.Shared} {slot n : Nat} (filled : FilledTo cfg contents call u slot n)

include filled

theorem FilledTo.frame (same : contents shared.pages = contents u.pages) :
    FilledTo cfg contents call shared slot n := by
  intro x inside
  rw [same]
  exact filled x inside

theorem FilledTo.succ
    (changed : contents shared.pages = (contents u.pages).set slot n (call.source n)) :
    FilledTo cfg contents call shared slot (n + 1) := by
  intro x inside
  rw [changed]
  by_cases here : x = n
  · rw [here]
    exact Pages.set_same ..
  · exact (Pages.set_of_ne _ _ fun equal => here equal.2).trans (filled x (by omega))

/-- The insertion of an absent page puts the bytes that its slot is filled with. -/
theorem FilledTo.inserted (before : Represents contents map u)
    (absent : latestPages u.log call.key = none) (wmeta : Option Nat) :
    Represents contents (map.put call n)
      { u with log := u.log ++ [⟨.checkAndInsert call.key slot wmeta, t⟩] } := by
  have inserted : (Request.checkAndInsert call.key slot wmeta).apply (latestPages u.log) =
      update (latestPages u.log) call.key (some ⟨slot, wmeta⟩) := by
    simp only [Request.apply, absent]
  refine before.insert ?_ ?_ ?_ rfl filled
  · exact congrArg (Option.map Page.slot) absent
  · simp [publishedSlot, latestPages_append, inserted, PageMap.slot]
  · intro key other
    simp [publishedSlot, latestPages_append, inserted, PageMap.slot, other]

end

theorem progress_move {act : Act Key} {reply : act.Reply cfg.nodes}
    (seen : cfg.memory.SeenBy (cfg.replica t) alone contents) (before : alone s.shared.pages)
    (simple : call.Simple cfg) (solo : Solo False t call pc s) (slots : SlotsOwned cfg s)
    (known : pc.Knows cfg t call s.shared) (known' : pc'.Knows cfg t call shared)
    (mode : ∀ writes, pc.mode = some writes → call.isWrite = writes)
    (move : Move cfg t call choice pc act reply pc')
    (stored : ∀ entry, pc = .anchorStore entry → pc' = call.afterAnchor cfg (cfg.replica t) entry)
    (acted : perform cfg t s.shared act = some (shared, reply))
    (progress : pc.Progress cfg contents call map s.shared) :
    ∃ map', Answered map call map' pc' ∧ pc'.Progress cfg contents call map' shared := by
  have changed := (seen_perform seen before acted).2
  have keeps (kept : contents shared.pages = contents s.shared.pages) :=
    represents_perform acted kept
  cases move with
  | readNothing reads _ =>
    obtain ⟨_, entry, _⟩ := known
    have leads := stored _ rfl
    rw [entry, afterAnchor_read reads] at leads
    have absent : pageOf cfg call s.shared = none := by
      by_contra present
      obtain ⟨⟨slot, _ | w⟩, found⟩ := Option.ne_none_iff_exists'.mp present <;>
        rw [found] at leads <;> cases leads
    refine ⟨map, .missing (simple.get_of_reads reads) (progress.absent ?_),
      keeps changed (by simp) _ progress⟩
    exact congrArg (Option.map Page.slot) absent
  | readUntracked | readFresh =>
    obtain ⟨_, _, wmeta, page⟩ := known'
    have after := keeps changed (by simp) map progress
    obtain ⟨page, present⟩ := after.present (PageMap.slot_of_some page)
    exact ⟨map, rfl, after, ⟨page, present, by simp⟩, Nat.zero_le _⟩
  | @readByte slot _ bytes value left =>
    obtain ⟨_, _, wmeta, page⟩ := known
    obtain ⟨represents, sofar, short⟩ := progress
    rw [simple.bytesRead] at left
    refine ⟨map, rfl, keeps changed (by simp) map represents, sofar.concat ?_, ?_⟩
    · intro page' byte present covered
      have loaded : value = contents s.shared.pages slot (call.offset + bytes.length) := by
        cases acted
        exact (seen.load s.shared.pages slot _ before).1
      rw [loaded, simple.offset, Nat.zero_add]
      exact represents.bytes call.key page' slot present (PageMap.slot_of_some page) _ byte covered
    · rw [List.length_append, List.length_singleton]
      exact left
  | readCopied full =>
    rw [simple.bytesRead] at full
    exact ⟨map, rfl, keeps changed (by simp) map progress.1, progress.2.1,
      Nat.le_antisymm progress.2.2 (Nat.not_lt.mp full)⟩
  | readGuarded | readWhole =>
    exact ⟨map, rfl, keeps changed (by simp) map progress.1, progress.2⟩
  | readNotified | readTorn =>
    exact ⟨map, rfl, keeps changed (by simp) map progress.1⟩
  | readValid | readCached | readRemember =>
    obtain ⟨represents, ⟨page, present, sofar⟩, length⟩ := progress
    refine ⟨map, ?_, keeps changed (by simp) map represents⟩
    rw [Answered, length]
    rw [length] at sofar
    exact .found (simple.get_of_reads (mode false rfl)) present length sofar
  | createRefused writes =>
    exact ⟨map, .full (simple.put_of_isWrite writes), keeps changed (by simp) map progress⟩
  | createEmpty kind data =>
    rw [simple.data_eq kind] at data
    cases data
  | createFetched | recordCreates =>
    exact ⟨map, rfl, keeps changed (by simp) map progress, fun x inside =>
      absurd inside (Nat.not_lt_zero x)⟩
  | @createFill slot wmeta i value byte =>
    have put := simple.put_of_isWrite (mode true rfl)
    have held := (slots.held t slot (by rw [solo.thread]; rfl)).2
    rw [simple.content put] at byte
    obtain ⟨inside, rfl⟩ : i < call.count ∧ call.source i = value := by
      obtain ⟨inside, found⟩ := List.getElem?_eq_some_iff.mp byte
      simpa [copyOf] using And.intro inside found
    exact ⟨map, rfl, progress.1.fill held (by cases acted; rfl) changed, progress.2.succ changed⟩
  | createFilled done =>
    have put := simple.put_of_isWrite (mode true rfl)
    rw [simple.content put, List.getElem?_eq_none_iff, copyOf, List.length_map,
      List.length_range] at done
    refine ⟨map, rfl, keeps changed (by simp) map progress.1, fun x inside => ?_⟩
    rw [changed]
    exact progress.2 x (by omega)
  | createFlush | createFlushed =>
    exact ⟨map, rfl, keeps changed (by simp) map progress.1, progress.2.frame changed⟩
  | @createInsert slot wmeta =>
    obtain ⟨rfl, _, _⟩ := perform_submit acted
    exact ⟨map, rfl, progress.2.inserted progress.1 known wmeta⟩
  | createLostBoth | createLostSlot | createThrows | createLost => exact known'.elim
  | createDone | sequencedDone =>
    have put := simple.put_of_isWrite (mode true rfl)
    exact ⟨_, .put put, keeps changed (by simp) _ progress⟩
  | createAgain _ _ other | sequencedAgain other =>
    have put := simple.put_of_isWrite (mode true rfl)
    simp [Call.carries, put] at other
  | createKept | writeFlush | writeFlushed | writeWraps | writeSeqEnd | writeWrap | writeWrapped =>
    exact ⟨map, rfl, keeps changed (by simp) _ progress⟩
  | writeValid =>
    have after := keeps changed (by simp) map progress
    exact ⟨map, rfl, after.put_zero (PageMap.slot_of_some known'.1), Nat.zero_le _⟩
  | @writeByte slot w i buffer left data =>
    obtain ⟨page, writes⟩ := known
    have put := simple.put_of_isWrite writes
    obtain rfl : call.source = buffer :=
      Option.some.inj ((simple.data_eq put).symm.trans data)
    rw [simple.bytesWrite] at left
    refine ⟨map, rfl, progress.1.put_succ (PageMap.slot_of_some page) (fun key published => ?_)
      (by cases acted; rfl) ?_, left⟩
    · exact slots.distinct _ _ slot published (PageMap.slot_of_some page)
    · rw [simple.offset, Nat.zero_add] at changed
      exact changed
  | writeCopied done =>
    rw [simple.bytesWrite] at done
    obtain ⟨represents, short⟩ := progress
    rw [Nat.le_antisymm short (Nat.not_lt.mp done)] at represents
    exact ⟨map, rfl, keeps changed (by simp) _ represents⟩
  | writeRemember =>
    have put := simple.put_of_isWrite (mode true rfl)
    refine ⟨map.put call call.count, ?_, keeps changed (by simp) _ progress⟩
    rw [Answered, simple.bytesWrite]
    exact .put put
  | recycledDone | reclaimedLast | iterated => exact known.elim
  | _ => exact ⟨map, rfl, keeps changed (by simp) map progress⟩

theorem Pc.Progress.frame {s s' : cfg.Shared}
    (before : pc.Progress cfg contents call map s) (log : s'.log = s.log)
    (same : contents s'.pages = contents s.pages) : pc.Progress cfg contents call map s' := by
  have represents : ∀ map, Represents contents map s → Represents contents map s' :=
    fun map before => before.frame (fun key => by rw [publishedSlot, log]) same
  have filled : ∀ slot n, FilledTo cfg contents call s slot n →
      FilledTo cfg contents call s' slot n := fun slot n before => by
    rw [FilledTo, same]
    exact before
  cases pc with
  | readCopy | readNotified | readRetry | readRemember | writeCopy =>
    exact ⟨represents _ before.1, before.2⟩
  | createFill | createFlush | createInsert => exact ⟨represents _ before.1, filled _ _ before.2⟩
  | _ => exact represents _ before

end

/-! ### Runs of one thread -/

variable (cfg t) in
/-- Only thread `t` starts calls. -/
def oneThread : Event Key → Prop
  | .start t' call => t' = t ∧ call.Simple cfg
  | _ => True

def Pc.completed {nodes : Nat} (call : Call Key) : Pc Key nodes → List (Completed Key)
  | .returned result bytes => [⟨call, result, bytes⟩]
  | _ => []

/-- The call that has returned with a step to `s`. -/
def completions (s : cfg.State) : Event Key → List (Completed Key)
  | .thread t _ => (s.threads t).pc.completed (s.threads t).call
  | _ => []

variable (cfg t) in
/-- A run of one thread and the calls that have returned in it. -/
inductive Served : List (Completed Key) → cfg.State → Prop
  | initial {s} (start : Initial cfg s) : Served [] s
  | step {history s e s'} (before : Served history s) (single : oneThread cfg t e)
      (taken : Protocol.step cfg s e = some s') : Served (history ++ completions s' e) s'

variable (cfg t contents) in
/-- A thread in a call on the map. -/
structure Running (map : KvMap Key) (call : Call Key) (pc : cfg.Pc)
    (s : cfg.Shared) : Prop where
  simple : call.Simple cfg
  knows : pc.Knows cfg t call s
  mode : ∀ writes, pc.mode = some writes → call.isWrite = writes
  progress : pc.Progress cfg contents call map s

variable (cfg t alone contents) in
/-- The invariant of the runs of one thread. -/
structure Sequential (map : KvMap Key) (s : cfg.State) : Prop where
  solo : Solo False t (s.threads t).call (s.threads t).pc s
  slots : SlotsOwned cfg s
  memory : alone s.shared.pages
  running : ((s.threads t).pc = .idle ∧ Represents contents map s.shared) ∨
    Running cfg t contents map (s.threads t).call (s.threads t).pc s.shared

section

variable {map : KvMap Key} {s s' : cfg.State} {call : Call Key}

theorem entryPc_of_simple (simple : call.Simple cfg) : call.entryPc cfg = .anchorCtail := by
  have inPage : call.offset + call.count ≤ cfg.slotSize := by
    rw [simple.offset, Nat.zero_add]
    exact simple.count.2
  rcases simple.kind with kind | kind <;> simp only [Call.entryPc, kind, inPage, if_true]

theorem sequential_start (before : Sequential cfg t alone contents map s)
    (simple : call.Simple cfg) (taken : step cfg s (.start t call) = some s') :
    Sequential cfg t alone contents map s' := by
  have records := recordsOwned_step s _ s' before.solo.records rfl taken
  have slots := slotsOwned_step s _ s' before.slots (by rintro _ _ _ _ ⟨⟩) taken
  have tails := tails_step before.solo.tails taken
  obtain ⟨ready, rfl⟩ := step_start taken
  have represents : Represents contents map s.shared := by
    rcases before.running with ⟨_, represents⟩ | running
    · exact represents
    · have progress := running.progress
      cases counter : (s.threads t).pc <;> rw [counter] at ready progress <;>
        first
          | exact progress
          | cases ready
  have entry := entryPc_of_simple simple
  refine ⟨⟨rfl, fun t' other => ?_, records, tails⟩, slots, before.memory, .inr ?_⟩
  · simpa [other] using before.solo.others t' other
  · simp only [update_self, entry]
    refine ⟨simple, fun kind => ?_, by simp [Pc.mode], represents⟩
    rcases simple.kind with put | get
    · rw [put] at kind
      cases kind
    · rw [get] at kind
      cases kind

section

variable (seen : cfg.memory.SeenBy (cfg.replica t) alone contents)

include seen

theorem sequential_replica {e : Event Key}
    (before : Sequential cfg t alone contents map s) (replica : e.ofReplica = true)
    (taken : step cfg s e = some s') : Sequential cfg t alone contents map s' := by
  have same := unmoved_step replica taken
  have solo := before.solo.unmoved (.single ⟨e, replica, taken⟩)
  have slots := slotsOwned_step s e s' before.slots (by rintro _ _ _ _ rfl; cases replica) taken
  obtain ⟨memory, bytes⟩ : alone s'.shared.pages ∧
      contents s'.shared.pages = contents s.shared.pages := by
    cases stepForm_of_step taken with
    | start | thread => cases replica
    | replica _ flushed =>
      rcases flushed with rfl | ⟨r, slot, rfl⟩
      · exact ⟨before.memory, rfl⟩
      · exact seen_flushLines seen before.memory r slot _
  refine ⟨by rw [same.threads]; exact solo, slots, memory, ?_⟩
  rw [same.threads]
  refine before.running.imp (fun idle => ⟨idle.1, idle.2.frame (fun key => ?_) bytes⟩)
    fun running => ⟨running.simple, knows_unmoved running.knows same, running.mode,
      running.progress.frame same.log bytes⟩
  rw [publishedSlot, same.log]

theorem sequential_thread {choice : Nat}
    (before : Sequential cfg t alone contents map s)
    (taken : step cfg s (.thread t choice) = some s') :
    ∃ map', Answered map (s'.threads t).call map' (s'.threads t).pc ∧
      Sequential cfg t alone contents map' s' := by
  have slots := slotsOwned_step s (.thread t choice) s' before.slots
  obtain ⟨instr, shared, reply, fetched, acted, rfl⟩ := step_thread taken
  have running : Running cfg t contents map (s.threads t).call (s.threads t).pc s.shared := by
    refine before.running.resolve_left fun idle => ?_
    rw [idle.1] at fetched
    cases fetched
  obtain ⟨simple, known, mode, progress⟩ := running
  have notRead : (s.threads t).call.kind ≠ .read := by
    rcases simple.kind with kind | kind <;> simp [kind]
  have uncontested := before.solo.uncontested known simple.notNull choice
  have onward := onward_step before.solo known simple.notNull
    (fun writes => simple.data (simple.put_of_isWrite writes)) (fun kind => absurd kind notRead)
    fetched acted
  have move := move_of_next fetched reply
  obtain ⟨map', answered, progress'⟩ := progress_move seen before.memory simple before.solo
    before.slots known onward.knows mode move
    (stored_of_next fetched reply) acted progress
  refine ⟨map', by simpa using answered, ?_, slots (insertsNamed_of_uncontested uncontested) taken,
    (seen_perform seen before.memory acted).1, .inr ?_⟩
  · simp only [update_self]
    exact before.solo.advance uncontested False.elim fetched acted
  · simp only [update_self]
    refine ⟨simple, onward.knows, fun writes after => ?_, progress'⟩
    exact (mode_move notRead move after).elim (mode writes) id

theorem sequential_initial
    (start : Initial cfg s) : Sequential cfg t alone contents (fun _ => none) s where
  solo := ⟨rfl, fun t' _ => by rw [start.threads]; rfl, recordsIn_initial s start,
    tails_initial start⟩
  slots := slotsOwned_initial s start
  memory := seen.initial _ start.pages
  running := by
    refine .inl ⟨by rw [start.threads], fun key => ?_, fun key page slot present => ?_⟩
    · rw [publishedSlot, start.log]
      rfl
    · cases present

end

theorem run_completed {history : List (Completed Key)} {map' : KvMap Key} {pc : cfg.Pc}
    (run : KvMap.Run history map) (answered : Answered map call map' pc) :
    KvMap.Run (history ++ pc.completed call) map' := by
  cases pc with
  | returned => exact .snoc run answered
  | _ =>
    obtain rfl : map' = map := answered
    simpa only [Pc.completed, List.append_nil] using run

theorem sequential_of_served (seen : cfg.memory.SeenBy (cfg.replica t) alone contents)
    {history : List (Completed Key)} (served : Served cfg t history s) :
    ∃ map, KvMap.Run history map ∧ Sequential cfg t alone contents map s := by
  induction served with
  | initial start => exact ⟨_, .nil, sequential_initial seen start⟩
  | @step history s e s' _ single taken ih =>
    obtain ⟨map, run, before⟩ := ih
    cases e with
    | start t' call =>
      obtain ⟨rfl, simple⟩ := single
      exact ⟨map, by simpa only [completions, List.append_nil] using run,
        sequential_start before simple taken⟩
    | thread t' choice =>
      by_cases mine : t' = t
      · subst mine
        obtain ⟨map', answered, after⟩ := sequential_thread seen before taken
        exact ⟨map', run_completed run answered, after⟩
      · obtain ⟨instr, _, _, fetched, _, _⟩ := step_thread taken
        have ready := before.solo.others t' mine
        rw [(next_ready fetched).1] at ready
        cases ready
    | _ =>
      exact ⟨map, by simpa only [completions, List.append_nil] using run,
        sequential_replica seen before rfl taken⟩

/-- **`Put` and `Get` of one thread are those of a map.** Along every run of one thread the calls
that have returned are a sequence of operations of the map, with the results of the map: a key
that was never put is missing, a page has the bytes of the latest puts that cover them, and a put
leaves the other keys, or everything if there is no slot. -/
theorem sequential_refinement (seen : cfg.memory.SeenBy (cfg.replica t) alone contents)
    {history : List (Completed Key)} (served : Served cfg t history s) :
    ∃ map, KvMap.Run history map := by
  obtain ⟨map, run, _⟩ := sequential_of_served seen served
  exact ⟨map, run⟩

end

/-! ### Evaluated runs -/

section

variable (cfg t)

instance (call : Call Key) : Decidable (call.Simple cfg) :=
  decidable_of_iff ((call.kind = .put ∨ call.kind = .get) ∧
      (call.kind = .put → call.data.isSome = true) ∧ call.offset = 0 ∧
      (1 ≤ call.count ∧ call.count ≤ cfg.slotSize) ∧ call.key ≠ BlockKey.nullBlockId)
    ⟨fun meets => ⟨meets.1, meets.2.1, meets.2.2.1, meets.2.2.2.1, meets.2.2.2.2⟩,
      fun simple => ⟨simple.kind, simple.data, simple.offset, simple.count, simple.notNull⟩⟩

instance : DecidablePred (oneThread cfg t)
  | .start t' call => inferInstanceAs (Decidable (t' = t ∧ call.Simple cfg))
  | .thread _ _ | .replay _ | .sync _ | .complete _ => .isTrue trivial

def serve (served : cfg.State × List (Completed Key)) :
    List (Event Key) → Option (cfg.State × List (Completed Key))
  | [] => some served
  | e :: rest =>
    if oneThread cfg t e then
      (step cfg served.1 e).bind fun s' => serve (s', served.2 ++ completions s' e) rest
    else none

variable {cfg t}

theorem served_of_serve {start finish : cfg.State × List (Completed Key)}
    (before : Served cfg t start.2 start.1) {events : List (Event Key)}
    (executed : serve cfg t start events = some finish) : Served cfg t finish.2 finish.1 := by
  induction events generalizing start with
  | nil =>
    cases executed
    exact before
  | cons e rest ih =>
    rw [serve] at executed
    split at executed
    · rename_i single
      rw [Option.bind_eq_some_iff] at executed
      obtain ⟨s', taken, executed⟩ := executed
      exact ih (.step before single taken) executed
    · cases executed

end

end

def oneCached : Config BlockId (CachedPages (Fin 2)) :=
  twoHosts 1 1 2 Nat.one_pos (privateCacheMemory (Fin 2) 1)

def oneCachedStart : State BlockId (CachedPages (Fin 2)) oneCached.nodes :=
  initialState oneCached ⟨fun _ _ => 0, fun _ _ => none⟩ pageKey

def putAndGetAlone : List (Event BlockId) :=
  putAlone ++ [.start 0 (readCall .get 1)] ++ steps 10 0 0

theorem sequential_refinement_putAndGetAlone :
    ∃ history s, Served oneCached 0 history s ∧
      history.map (fun completed => (completed.result, completed.bytes)) = [(1, []), (1, [7])] ∧
      ∃ map, KvMap.Run history map := by
  have evaluated : (serve oneCached 0 (oneCachedStart, []) putAndGetAlone).any (fun served =>
      served.2.map (fun completed => (completed.result, completed.bytes)) ==
        [(1, []), (1, [7])]) = true := by
    decide +kernel
  obtain ⟨⟨s, history⟩, executed, results⟩ := Option.any_eq_true _ _ |>.mp evaluated
  have served := served_of_serve (.initial (initial_initialState oneCached pageKey fun _ _ => rfl))
    executed
  exact ⟨history, s, served, beq_iff_eq.mp results,
    sequential_refinement (seenBy_privateCacheMemory 1 _) served⟩

end Megalon.Protocol

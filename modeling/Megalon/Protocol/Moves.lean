import Megalon.Protocol.Program

/-!
Contract: what one step of a thread can be.

Owns: the moves from one program counter to the next, each with the access that is made,
the reply to it and the tests the code has passed, and that `next` makes no other.

Does not own: what an access does to the shared state.
-/

namespace Megalon.Protocol

open Core Index

def Purpose.reclaims : Purpose → Bool
  | .sample _ | .iterate _ _ _ => true
  | _ => false

section

variable {Key Mem : Type} [BlockKey Key] (cfg : Config Key Mem)

def Call.isWrite (call : Call Key) : Bool := call.kind = .write || call.kind = .put

/-- The call brings the bytes of a page it creates. -/
def Call.carries (call : Call Key) : Bool :=
  match call.kind with
  | .put => true
  | .write => (call.toWrite cfg).isSome
  | _ => false

/-- The slot of the shared copy, which the change notification is about. -/
def sharedSlot {nodes : Nat} (entry : Option (GCDEntry nodes)) : Option Nat :=
  entry.bind fun e => (e.cnArray sharedCacheNode).cnIdx

end

section

variable {Key Mem : Type} [BlockKey Key] (cfg : Config Key Mem)
  (t : Nat) (call : Call Key) (choice : Nat)

/-- A move of thread `t`: the access, its reply and the next program counter. -/
inductive Move : cfg.Pc → (act : Act Key) → act.Reply cfg.nodes → cfg.Pc → Prop
  -- `GetAnchor`
  | loadCtail {ctail} : Move .anchorCtail .loadCtail ctail (.anchorLookup ctail)
  | lookup {ctail entry} :
      Move (.anchorLookup ctail) (.lookup call.key ctail) entry (.anchorStore entry)
  | anchorCrash {entry} : Move (.anchorStore entry) (.storeAnchor (sharedSlot entry)) () .crashed
  | anchorLocal {entry} : Move (.anchorStore entry) (.storeAnchor (sharedSlot entry)) () .localCopy
  -- `Read` and `Get` with their entry
  | readMissing {entry} (kind : call.kind = .read) :
      Move (.anchorStore entry) (.storeAnchor (sharedSlot entry)) () .createReserve
  | readNothing {entry} (reads : call.isWrite = false) (kind : call.kind ≠ .read) :
      Move (.anchorStore entry) (.storeAnchor (sharedSlot entry)) () (.returned 0 [])
  | readTracked {entry slot w} (reads : call.isWrite = false)
      (page : sharedSlot (some entry) = some slot) (record : entry.wmetaIdx = some w) :
      Move (.anchorStore (some entry)) (.storeAnchor (sharedSlot (some entry))) ()
        (.readSeqBegin slot w)
  | readUntracked {entry slot} (reads : call.isWrite = false)
      (page : sharedSlot (some entry) = some slot) (record : entry.wmetaIdx = none) :
      Move (.anchorStore (some entry)) (.storeAnchor (sharedSlot (some entry))) ()
        (.readCopy slot none [])
  -- `Write` and `Put` with their entry
  | writeMissing {entry} (writes : call.isWrite = true) :
      Move (.anchorStore entry) (.storeAnchor (sharedSlot entry)) () .createReserve
  | writeReadOnly {entry} (writes : call.isWrite = true) :
      Move (.anchorStore entry) (.storeAnchor (sharedSlot entry)) () (.recordCheck .switchRW none)
  | writeTracked {entry slot w} (writes : call.isWrite = true)
      (page : sharedSlot (some entry) = some slot) (record : entry.wmetaIdx = some w) :
      Move (.anchorStore (some entry)) (.storeAnchor (sharedSlot (some entry))) ()
        (.writeSeqBegin slot w)
  | writeAgain {entry} (writes : call.isWrite = true) :
      Move (.anchorStore entry) (.storeAnchor (sharedSlot entry)) () .anchorCtail
  -- `ReadFromCXL`
  | readSeqBegin {slot w seq} :
      Move (.readSeqBegin slot w) (.rSeqBegin w) seq (.readLocalSeq slot w seq)
  | readStale {slot w seq} {localSeq : Option Nat} (known : localSeq ≠ none)
      (stale : localSeq ≠ some seq) :
      Move (.readLocalSeq slot w seq) (.getLocalSeqcount w) localSeq (.readForget slot w)
  | readFresh {slot w seq} {localSeq : Option Nat} (fresh : localSeq = none ∨ localSeq = some seq) :
      Move (.readLocalSeq slot w seq) (.getLocalSeqcount w) localSeq
        (.readCopy slot (some ⟨w, seq, localSeq.isSome⟩) [])
  | readForget {slot w} :
      Move (.readForget slot w) (.updateLocalSeqcount w none) () (.readFlush slot 0)
  | readFlush {slot line} (left : line * cfg.lineSize < cfg.slotSize) :
      Move (.readFlush slot line) (.flushLine slot line) () (.readFlush slot (line + 1))
  | readFlushed {slot line} (done : ¬ line * cfg.lineSize < cfg.slotSize) :
      Move (.readFlush slot line) .skip () .anchorCtail
  | readByte {slot guard bytes value} (left : bytes.length < call.bytesRead cfg) :
      Move (.readCopy slot guard bytes) (.loadByte slot (call.offset + bytes.length)) value
        (.readCopy slot guard (bytes ++ [value]))
  | readCopied {slot guard bytes} (done : ¬ bytes.length < call.bytesRead cfg) :
      Move (.readCopy slot guard bytes) .skip () (.readNotified slot guard bytes)
  | readNotified {slot guard bytes} :
      Move (.readNotified slot guard bytes) .checkNotificationReset false (.readFlush slot 0)
  | readValid {slot bytes} :
      Move (.readNotified slot none bytes) .checkNotificationReset true
        (.returned bytes.length bytes)
  | readGuarded {slot guard bytes} :
      Move (.readNotified slot (some guard) bytes) .checkNotificationReset true
        (.readRetry slot guard bytes)
  | readTorn {slot guard bytes} {word : SeqWord}
      (torn : readSeqlockRetry word guard.seqcount = true) :
      Move (.readRetry slot guard bytes) (.loadSeqlock guard.wmeta) word
        (.readForget slot guard.wmeta)
  | readCached {slot guard bytes} {word : SeqWord}
      (whole : readSeqlockRetry word guard.seqcount = false) (cached : guard.cached = true) :
      Move (.readRetry slot guard bytes) (.loadSeqlock guard.wmeta) word
        (.returned bytes.length bytes)
  | readWhole {slot guard bytes} {word : SeqWord}
      (whole : readSeqlockRetry word guard.seqcount = false) (uncached : guard.cached = false) :
      Move (.readRetry slot guard bytes) (.loadSeqlock guard.wmeta) word
        (.readRemember guard bytes)
  | readRemember {guard bytes} :
      Move (.readRemember guard bytes) (.updateLocalSeqcount guard.wmeta (some guard.seqcount)) ()
        (.returned bytes.length bytes)
  -- `Admit`, `AdmitWrite`, `CreateEntry`
  | createRefused (writes : call.isWrite = true) :
      Move .createReserve (.reserveCacheNode choice) none (.returned 0 [])
  | createRetry (reads : call.isWrite = false) :
      Move .createReserve (.reserveCacheNode choice) none .anchorCtail
  | createWritten {slot : Nat} (writes : call.isWrite = true) :
      Move .createReserve (.reserveCacheNode choice) (some slot) (.recordCheck (.create slot) none)
  | createEmpty {slot : Nat} (kind : call.kind = .put) (data : call.data = none) :
      Move .createReserve (.reserveCacheNode choice) (some slot) (.createInsert slot none)
  | createCrash {slot : Nat} (reads : call.isWrite = false) (fails : call.fetchFails cfg t = true) :
      Move .createReserve (.reserveCacheNode choice) (some slot) .crashed
  | createFetched {slot : Nat} (reads : call.isWrite = false)
      (fetched : call.fetchFails cfg t = false) :
      Move .createReserve (.reserveCacheNode choice) (some slot) (.createFill slot none 0)
  | createFill {slot wmeta i value} (byte : (call.content cfg t).1[i]? = some value) :
      Move (.createFill slot wmeta i) (.storeByte slot i value) () (.createFill slot wmeta (i + 1))
  | createFilled {slot wmeta i} (done : (call.content cfg t).1[i]? = none) :
      Move (.createFill slot wmeta i) .skip () (.createFlush slot wmeta 0)
  | createFlush {slot wmeta line} (left : line * cfg.lineSize < (call.content cfg t).2) :
      Move (.createFlush slot wmeta line) (.flushLine slot line) ()
        (.createFlush slot wmeta (line + 1))
  | createFlushed {slot wmeta line} (done : ¬ line * cfg.lineSize < (call.content cfg t).2) :
      Move (.createFlush slot wmeta line) .skip () (.createInsert slot wmeta)
  | createInsert {slot wmeta index response} :
      Move (.createInsert slot wmeta) (.submit (.checkAndInsert call.key slot wmeta))
        (index, response) (.createWait slot wmeta index (checkAndInsertCode response))
  | createLostBoth {slot w index} :
      Move (.createWait slot (some w) index .slotWmetaUpdateFailed) (.await index) ()
        (.createRecycleTwice slot w)
  | createLostSlot {slot w index} :
      Move (.createWait slot (some w) index .slotUpdateFailed) (.await index) ()
        (.createRecycle slot w)
  | createThrows {slot index error}
      (lost : error = .slotWmetaUpdateFailed ∨ error = .slotUpdateFailed)
      (kind : call.kind = .put) :
      Move (.createWait slot none index error) (.await index) () .crashed
  | createLost {slot index error}
      (lost : error = .slotWmetaUpdateFailed ∨ error = .slotUpdateFailed)
      (kind : call.kind ≠ .put) :
      Move (.createWait slot none index error) (.await index) () (.createRecycleNode slot)
  | createKept {slot w index error} (both : error ≠ .slotWmetaUpdateFailed)
      (kept : error ≠ .slotUpdateFailed) :
      Move (.createWait slot (some w) index error) (.await index) () (.createSeqEnd w)
  | createDone {slot index error} (both : error ≠ .slotWmetaUpdateFailed)
      (kept : error ≠ .slotUpdateFailed) (own : call.carries cfg = true) :
      Move (.createWait slot none index error) (.await index) () (.returned call.count [])
  | createAgain {slot index error} (both : error ≠ .slotWmetaUpdateFailed)
      (kept : error ≠ .slotUpdateFailed) (other : call.carries cfg = false) :
      Move (.createWait slot none index error) (.await index) () .anchorCtail
  | createRecycleTwice {slot w} :
      Move (.createRecycleTwice slot w) (.recycleWmeta w (choice == 0)) () (.createRecycle slot w)
  | createRecycle {slot w} :
      Move (.createRecycle slot w) (.recycleWmeta w (choice == 0)) () (.createRecycleNode slot)
  | recycledDone {slot} (own : call.carries cfg = true) :
      Move (.createRecycleNode slot) (.recycleCacheNode slot (choice == 0)) ()
        (.returned call.count [])
  | recycledAgain {slot} (other : call.carries cfg = false) :
      Move (.createRecycleNode slot) (.recycleCacheNode slot (choice == 0)) () .anchorCtail
  | sequencedDone {w seq} (own : call.carries cfg = true) :
      Move (.createSeqEnd w) (.wSeqEnd w) seq (.returned call.count [])
  | sequencedAgain {w seq} (other : call.carries cfg = false) :
      Move (.createSeqEnd w) (.wSeqEnd w) seq .anchorCtail
  -- `CheckReserveWmeta`
  | recordHint {purpose hint} :
      Move (.recordCheck purpose (some hint)) .skip () (.recordScan purpose hint 0)
  | recordFull {purpose} {count : Int} (full : count < 0 ∨ 19 * cfg.poolLen < 20 * count) :
      Move (.recordCheck purpose none) .getWmetaCount count
        (.sampleVictim purpose (call.samples purpose) [])
  | recordRoom {purpose} {count : Int} (room : ¬ (count < 0 ∨ 19 * cfg.poolLen < 20 * count)) :
      Move (.recordCheck purpose none) .getWmetaCount count (.recordScan purpose choice 0)
  | recordFound {purpose start i} (left : i < cfg.poolLen) :
      Move (.recordScan purpose start i) (.tryAllocateLock ((i + start) % cfg.poolLen)) true
        (.recordBlock purpose ((i + start) % cfg.poolLen))
  | recordTaken {purpose start i} (left : i < cfg.poolLen) :
      Move (.recordScan purpose start i) (.tryAllocateLock ((i + start) % cfg.poolLen)) false
        (.recordScan purpose start (i + 1))
  | recordNone {purpose start i} (done : ¬ i < cfg.poolLen) :
      Move (.recordScan purpose start i) .skip () (.sampleVictim purpose (call.samples purpose) [])
  | recordCreates {slot w} :
      Move (.recordBlock (.create slot) w) (.setBlockId w call.key) () (.createFill slot (some w) 0)
  | recordSwitches {purpose w} (switches : ∀ slot, purpose ≠ .create slot) :
      Move (.recordBlock purpose w) (.setBlockId w call.key) () (.switchSubmit w)
  -- `SampleVictim` and the reclamation of a record
  | sampleFree {purpose left candidates} {word : SeqWord} (free : word.isFree = true) :
      Move (.sampleVictim purpose (left + 1) candidates) (.loadSeqlock (choice % cfg.poolLen)) word
        (.sampleVictim purpose left candidates)
  | sampleTaken {purpose left candidates} {word : SeqWord} (taken : word.isFree = false) :
      Move (.sampleVictim purpose (left + 1) candidates) (.loadSeqlock (choice % cfg.poolLen)) word
        (.sampleVictim purpose left (candidates ++ [(choice % cfg.poolLen, word.seq)]))
  | sampled {purpose candidates} :
      Move (.sampleVictim purpose 0 candidates) .skip () (.lockVictim purpose candidates)
  | noVictimRecord {purpose} (own : purpose.reclaims = false) :
      Move (.lockVictim purpose []) .skip () (.recordCheck purpose none)
  | noVictimSample {left} :
      Move (.lockVictim (.sample left) []) .skip ()
        (.sampleVictim (.sample left) (call.samples (.sample left)) [])
  | noVictimIterate {current i left} :
      Move (.lockVictim (.iterate current i left) []) .skip () (.iterateLock current (i + 1) left)
  | lockVictim {purpose candidates w seq} (chosen : candidates[choice]? = some (w, seq))
      (oldest : ∀ candidate ∈ candidates, seq ≤ candidate.2) :
      Move (.lockVictim purpose candidates) (.wLockOnly w) true (.victimBlock purpose w)
  | lockMissed {purpose candidates w seq} (chosen : candidates[choice]? = some (w, seq))
      (oldest : ∀ candidate ∈ candidates, seq ≤ candidate.2) :
      Move (.lockVictim purpose candidates) (.wLockOnly w) false
        (.lockVictim purpose (candidates.eraseIdx choice))
  | iterated {current i left} (done : left = 0 ∨ cfg.poolLen ≤ i) :
      Move (.iterateLock current i left) .skip () (.returned (call.count - left) [])
  | iterateLock {current i left} (more : ¬ (left = 0 ∨ cfg.poolLen ≤ i)) :
      Move (.iterateLock current i left) (.wLockOnly ((current + i) % cfg.poolLen)) true
        (.victimBlock (.iterate current i left) ((current + i) % cfg.poolLen))
  | iterateMissed {current i left} (more : ¬ (left = 0 ∨ cfg.poolLen ≤ i)) :
      Move (.iterateLock current i left) (.wLockOnly ((current + i) % cfg.poolLen)) false
        (.iterateLock current (i + 1) left)
  | victimBlock {purpose w} {victim : Key} :
      Move (.victimBlock purpose w) (.getBlockId w) victim (.victimSwitch purpose w victim)
  | victimSwitch {purpose w victim index response} :
      Move (.victimSwitch purpose w victim) (.submit (.switchToReadOnly victim)) (index, response)
        (.victimWait purpose w index (switchToReadOnlyResult response))
  | victimSwitched {purpose w index reclaimed} :
      Move (.victimWait purpose w index (some reclaimed)) (.await index) ()
        (.victimRecycle purpose w reclaimed)
  | victimKept {purpose w index} :
      Move (.victimWait purpose w index none) (.await index) () (.victimUnlock purpose w)
  | reclaimedRecord {purpose w reclaimed} (own : purpose.reclaims = false) :
      Move (.victimRecycle purpose w reclaimed) (.recycleWmeta reclaimed (choice == 0)) ()
        (.recordCheck purpose (some reclaimed))
  | reclaimedLast {left w reclaimed} (last : left ≤ 1) :
      Move (.victimRecycle (.sample left) w reclaimed) (.recycleWmeta reclaimed (choice == 0)) ()
        (.returned call.count [])
  | reclaimedSample {left w reclaimed} (more : ¬ left ≤ 1) :
      Move (.victimRecycle (.sample left) w reclaimed) (.recycleWmeta reclaimed (choice == 0)) ()
        (.sampleVictim (.sample (left - 1)) (call.samples (.sample left)) [])
  | reclaimedIterate {current i left w reclaimed} :
      Move (.victimRecycle (.iterate current i left) w reclaimed)
        (.recycleWmeta reclaimed (choice == 0)) ()
        (.iterateLock ((w + 1) % cfg.poolLen) (i + 1) (left - 1))
  | unlockedRecord {purpose w} (own : purpose.reclaims = false) :
      Move (.victimUnlock purpose w) (.wUnlockOnly w) () (.recordCheck purpose none)
  | unlockedSample {left w} :
      Move (.victimUnlock (.sample left) w) (.wUnlockOnly w) ()
        (.sampleVictim (.sample left) (call.samples (.sample left)) [])
  | unlockedIterate {current i left w} :
      Move (.victimUnlock (.iterate current i left) w) (.wUnlockOnly w) ()
        (.iterateLock current (i + 1) left)
  -- `SwitchRW`
  | switchSubmit {w index response} :
      Move (.switchSubmit w) (.submit (.invalidateSwitchToRWShared call.key w)) (index, response)
        (.switchWait w index (invalidateSwitchToRWSharedCode response))
  | switchLost {w index error}
      (lost : error = .slotWmetaUpdateFailed ∨ error = .entryNoexist) :
      Move (.switchWait w index error) (.await index) () (.switchRecycle w)
  | switchMade {w index error} (both : error ≠ .slotWmetaUpdateFailed)
      (found : error ≠ .entryNoexist) :
      Move (.switchWait w index error) (.await index) () (.switchSeqEnd w)
  | switchRecycle {w} : Move (.switchRecycle w) (.recycleWmeta w (choice == 0)) () .anchorCtail
  | switchSeqEnd {w seq} : Move (.switchSeqEnd w) (.wSeqEnd w) seq .anchorCtail
  -- `WriteToCXL`
  | writeSeqBegin {slot w} :
      Move (.writeSeqBegin slot w) (.wSeqBegin w) true (.writeNotified slot w)
  | writeBusy {slot w} : Move (.writeSeqBegin slot w) (.wSeqBegin w) false .anchorCtail
  | writeValid {slot w} :
      Move (.writeNotified slot w) .checkNotificationReset true (.writeCopy slot w 0)
  | writeNotified {slot w} :
      Move (.writeNotified slot w) .checkNotificationReset false (.writeAbort slot w)
  | writeAbort {slot w seq} : Move (.writeAbort slot w) (.wSeqEnd w) seq .anchorCtail
  | writeByte {slot w i buffer} (left : i < call.bytesWrite cfg) (data : call.data = some buffer) :
      Move (.writeCopy slot w i) (.storeByte slot (call.offset + i) (buffer i)) ()
        (.writeCopy slot w (i + 1))
  | writeCopied {slot w i} (done : ¬ i < call.bytesWrite cfg) :
      Move (.writeCopy slot w i) .skip () (.writeFlush slot w (call.offset / cfg.lineSize))
  | writeFlush {slot w line} (left : line * cfg.lineSize < call.offset + call.bytesWrite cfg) :
      Move (.writeFlush slot w line) (.flushLine slot line) () (.writeFlush slot w (line + 1))
  | writeFlushed {slot w line} (done : ¬ line * cfg.lineSize < call.offset + call.bytesWrite cfg) :
      Move (.writeFlush slot w line) .skip () (.writeSeqEnd slot w)
  | writeWraps {slot w} : Move (.writeSeqEnd slot w) (.wSeqEnd w) (0 : Nat) (.writeWrap w)
  | writeSeqEnd {slot w seq} (more : seq ≠ 0) :
      Move (.writeSeqEnd slot w) (.wSeqEnd w) seq (.writeRemember w seq)
  | writeWrap {w index response} :
      Move (.writeWrap w) (.submit (.seqCountWrapAround call.key)) (index, response)
        (.writeWrapWait w index)
  | writeWrapped {w index} : Move (.writeWrapWait w index) (.await index) () (.writeRemember w 0)
  | writeRemember {w seq} :
      Move (.writeRemember w seq) (.updateLocalSeqcount w (some seq)) ()
        (.returned (call.bytesWrite cfg) [])

variable {cfg t call choice}

/-! ### `next` makes these moves only -/

omit [BlockKey Key] in
theorem isWrite_other (write : call.kind ≠ .write) (put : call.kind ≠ .put) :
    call.isWrite = false := by
  simp [Call.isWrite, write, put]

/-- A call whose bytes fill the new page is done with it. -/
theorem afterCreate_own (own : call.carries cfg = true) :
    call.afterCreate cfg = .returned call.count [] := by
  unfold Call.carries at own
  unfold Call.afterCreate
  cases kind : call.kind with
  | put => rfl
  | write =>
    simp only [kind] at own
    have full : call.count = cfg.slotSize := by
      by_contra other
      simp [Call.toWrite, other] at own
    simp [own, full]
  | _ => simp [kind] at own

/-- A call that only brought the page in looks it up again. -/
theorem afterCreate_other (other : call.carries cfg = false) :
    call.afterCreate cfg = .anchorCtail := by
  unfold Call.carries at other
  unfold Call.afterCreate
  cases kind : call.kind <;> simp_all

theorem move_afterReadAnchor (reads : call.isWrite = false) (entry : Option (GCDEntry cfg.nodes)) :
    Move cfg t call choice (.anchorStore entry) (.storeAnchor (sharedSlot entry)) ()
      (call.afterReadAnchor cfg (cfg.replica t) (entry.getD initEmptyGcdEntry)) := by
  unfold Call.afterReadAnchor
  split
  case h_1 =>
    split
    · exact .readMissing ‹_›
    · exact .readNothing reads ‹_›
  case h_2 slot selected =>
    have page := cnIdx_of_selectCacheNode selected
    cases entry with
    | none => cases page
    | some entry =>
      dsimp only [Option.getD_some] at page ⊢
      split
      · exact .readTracked reads page ‹_›
      · exact .readUntracked reads page ‹_›
  case h_3 | h_6 => exact .anchorCrash
  case h_4 | h_5 => exact .anchorLocal

theorem move_afterWriteAnchor (writes : call.isWrite = true) (entry : Option (GCDEntry cfg.nodes)) :
    Move cfg t call choice (.anchorStore entry) (.storeAnchor (sharedSlot entry)) ()
      (afterWriteAnchor cfg (cfg.replica t) (entry.getD initEmptyGcdEntry)) := by
  unfold afterWriteAnchor
  split
  case h_1 => exact .writeMissing writes
  case h_2 => exact .writeReadOnly writes
  case h_3 slot checked =>
    have page := cnIdx_of_checkCacheNode checked
    cases entry with
    | none => cases page
    | some entry =>
      dsimp only [Option.getD_some] at page ⊢
      split
      · exact .writeTracked writes page ‹_›
      · exact .writeAgain writes
  case h_4 => exact .anchorCrash
  case h_5 => exact .anchorLocal

theorem move_afterAnchor (entry : Option (GCDEntry cfg.nodes)) :
    Move cfg t call choice (.anchorStore entry) (.storeAnchor (sharedSlot entry)) ()
      (call.afterAnchor cfg (cfg.replica t) entry) := by
  unfold Call.afterAnchor
  split
  case h_3 write put =>
    exact move_afterReadAnchor (isWrite_other write put) entry
  all_goals exact move_afterWriteAnchor (by simp [Call.isWrite, *]) entry

variable {pc : cfg.Pc} {instr : Instr Key cfg.nodes}

theorem move_createReserve (fetched : next cfg t call choice .createReserve = some instr)
    (reply : instr.act.Reply cfg.nodes) :
    Move cfg t call choice .createReserve instr.act reply (instr.resume reply) := by
  cases fetched
  dsimp only
  split
  case h_1 | h_2 => exact .createRefused (by simp [Call.isWrite, *])
  case h_3 write put => exact .createRetry (isWrite_other write put)
  case h_4 => exact .createWritten (by simp [Call.isWrite, *])
  case h_5 =>
    split
    · exact .createWritten (by simp [Call.isWrite, *])
    · exact .createEmpty ‹_› (by simp_all)
  case h_6 write put =>
    have reads := isWrite_other write put
    split
    · exact .createCrash reads ‹_›
    · exact .createFetched reads (by simp_all)

theorem move_afterInsert (slot index : Nat) (wmeta : Option Nat) (error : NrGcdError) :
    Move cfg t call choice (.createWait slot wmeta index error) (.await index) ()
      (call.afterInsert cfg slot wmeta error) := by
  unfold Call.afterInsert
  split
  case h_1 =>
    split
    · exact .createLostBoth
    · split
      · exact .createThrows (.inl rfl) ‹_›
      · exact .createLost (.inl rfl) ‹_›
  case h_2 =>
    split
    · exact .createLostSlot
    · split
      · exact .createThrows (.inr rfl) ‹_›
      · exact .createLost (.inr rfl) ‹_›
  case h_3 both kept =>
    split
    · exact .createKept both kept
    · cases own : call.carries cfg with
      | true => rw [afterCreate_own own]; exact .createDone both kept own
      | false => rw [afterCreate_other own]; exact .createAgain both kept own

/-- **The moves of a thread**: `next` makes no others. -/
theorem move_of_next (fetched : next cfg t call choice pc = some instr)
    (reply : instr.act.Reply cfg.nodes) :
    Move cfg t call choice pc instr.act reply (instr.resume reply) := by
  cases pc with
  | anchorStore entry => cases fetched; exact move_afterAnchor entry
  | readLocalSeq slot w seq =>
    cases fetched
    dsimp only
    split
    case isTrue stale => exact .readStale stale.1 stale.2
    case isFalse fresh => exact .readFresh (by tauto)
  | readNotified slot guard bytes =>
    cases fetched
    obtain _ | _ := reply <;> cases guard <;> constructor
  | readRetry slot guard bytes =>
    cases fetched
    dsimp only [afterReadCheck]
    repeat' split
    all_goals constructor <;> simp_all
  | createReserve => exact move_createReserve fetched reply
  | createWait slot wmeta index error => cases fetched; exact move_afterInsert ..
  | createRecycleNode slot =>
    cases fetched
    cases own : call.carries cfg with
    | true => rw [afterCreate_own own]; exact .recycledDone own
    | false => rw [afterCreate_other own]; exact .recycledAgain own
  | createSeqEnd w =>
    cases fetched
    cases own : call.carries cfg with
    | true => rw [afterCreate_own own]; exact .sequencedDone own
    | false => rw [afterCreate_other own]; exact .sequencedAgain own
  | recordCheck purpose hint =>
    cases hint <;> cases fetched
    · dsimp only
      split <;> constructor <;> assumption
    · exact .recordHint
  | recordScan purpose start i =>
    simp only [next] at fetched
    split at fetched <;> cases fetched
    · obtain _ | _ := reply <;> constructor <;> assumption
    · constructor; assumption
  | recordBlock purpose w =>
    cases fetched
    cases purpose with
    | create slot => exact .recordCreates
    | _ => exact .recordSwitches (by simp)
  | sampleVictim purpose left candidates =>
    cases left <;> cases fetched
    · exact .sampled
    · dsimp only
      split <;> constructor <;> simp_all
  | lockVictim purpose candidates =>
    simp only [next] at fetched
    split at fetched
    · split at fetched <;> cases fetched
      subst candidates
      cases purpose <;> constructor <;> rfl
    · split at fetched <;> cases fetched
      obtain _ | _ := reply <;> constructor <;> assumption
  | iterateLock current i left =>
    simp only [next] at fetched
    split at fetched <;> cases fetched
    · constructor; assumption
    · obtain _ | _ := reply <;> constructor <;> assumption
  | victimWait purpose w index result => cases fetched; cases result <;> constructor
  | victimRecycle purpose w reclaimed =>
    cases fetched
    cases purpose with
    | sample left =>
      dsimp only [Call.reclaimed]
      split <;> constructor <;> assumption
    | _ => constructor <;> rfl
  | victimUnlock purpose w => cases fetched; cases purpose <;> constructor <;> rfl
  | switchWait w index error =>
    cases fetched
    dsimp only
    split
    case h_1 => exact .switchLost (.inl rfl)
    case h_2 => exact .switchLost (.inr rfl)
    case h_3 both found => exact .switchMade both found
  | writeSeqBegin slot w => cases fetched; obtain _ | _ := reply <;> constructor
  | writeNotified slot w => cases fetched; obtain _ | _ := reply <;> constructor
  | writeSeqEnd slot w =>
    cases fetched
    dsimp only
    split
    · subst reply; exact .writeWraps
    · exact .writeSeqEnd ‹_›
  | _ =>
    simp only [next] at fetched
    repeat' split at fetched
    all_goals first
      | (cases fetched; done)
      | (cases fetched; constructor <;> assumption)

end

end Megalon.Protocol

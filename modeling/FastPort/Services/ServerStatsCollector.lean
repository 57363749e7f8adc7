import Mathlib.Data.List.ReduceOption
import Mathlib.Algebra.Group.Nat.Defs
import Mathlib.Data.UInt

/-! `ServerStatsCollector::SnapshotSessions`: one page of the session list, and how a
client that asks for page after page tiles the snapshot with them. -/
namespace FastPort.Services.Stats

/-- A session as the collector sees it. The last two fields are what `dynamic_cast`
to `IIdleAware` and to `INetworkSession` gives access to, where it succeeds. -/
structure SessionStats where
  totalRxBytes : UInt64
  totalTxBytes : UInt64
  lastRecvTimeMs : Option Int64
  sessionId : Option UInt64
deriving DecidableEq, Repr

structure SessionInfoData where
  sessionId : UInt64 := 0
  lastRecvMs : Int64 := 0
  rxBytes : UInt64 := 0
  txBytes : UInt64 := 0
deriving DecidableEq, Repr

structure SessionListData where
  total : UInt32 := 0
  offset : UInt32 := 0
  sessions : List SessionInfoData := []
deriving DecidableEq, Repr

abbrev Snapshot := List (Option SessionStats)

/-- What a call of `m_SessionProvider` comes to. -/
inductive Provided where
  | snapshot (snapshot : Snapshot)
  | stdException
  | foreignException

/-- How `SnapshotSessions` can fail: what the provider threw leaves it, or it indexes
`snapshot` past its end, which C++ leaves undefined. -/
inductive Fault where
  | foreignException
  | indexPastEnd
deriving DecidableEq, Repr

def kMaxLimit : UInt32 := 1000

def clampLimit (limit : UInt32) : UInt32 :=
  if limit = 0 ∨ limit > kMaxLimit then kMaxLimit else limit

/-- `std::min<std::uint32_t>(offset + limit, out.total)`, with the limit clamped. -/
def endIdx (total offset limit : UInt32) : UInt32 :=
  if total < offset + clampLimit limit then total else offset + clampLimit limit

def SessionStats.info (s : SessionStats) : SessionInfoData where
  sessionId := s.sessionId.getD 0
  lastRecvMs := s.lastRecvTimeMs.getD 0
  rxBytes := s.totalRxBytes
  txBytes := s.totalTxBytes

/-- The loop over the page, `count` indices from `i` on. -/
def listSessions (snapshot : Snapshot) :
    Nat → Nat → List SessionInfoData → Except Fault (List SessionInfoData)
  | _, 0, sessions => .ok sessions
  | i, count + 1, sessions =>
      match snapshot[i]? with
      | none => .error .indexPastEnd
      | some none => listSessions snapshot (i + 1) count sessions
      | some (some pSession) => listSessions snapshot (i + 1) count (sessions ++ [pSession.info])

/-- The provider is `none` when the function object is empty. -/
def snapshotSessions (sessionProvider : Option Provided) (offset limit : UInt32) :
    Except Fault SessionListData :=
  match sessionProvider.getD (.snapshot []) with
  | .foreignException => .error .foreignException
  | .stdException => .ok { offset }
  | .snapshot snapshot =>
      let total := UInt32.ofNat snapshot.length
      if offset ≥ total then .ok { total, offset }
      else
        match listSessions snapshot offset.toNat
            ((endIdx total offset limit).toNat - offset.toNat) [] with
        | .error fault => .error fault
        | .ok sessions => .ok { total, offset, sessions }

def infos (entries : Snapshot) : List SessionInfoData :=
  entries.reduceOption.map SessionStats.info

/-- The entries of a page, which is empty from the offset `total` on. -/
def page (snapshot : Snapshot) (offset limit : UInt32) : Snapshot :=
  let total := UInt32.ofNat snapshot.length
  if offset ≥ total then []
  else (snapshot.take (endIdx total offset limit).toNat).drop offset.toNat

/-- A client asks for page after page, from an offset on, until the offset has reached
the total that the last answer reports. -/
inductive Pages (sessionProvider : Option Provided) (limit : UInt32) :
    UInt32 → List SessionListData → Prop
  | last {offset answer} : snapshotSessions sessionProvider offset limit = .ok answer →
      offset ≥ answer.total → Pages sessionProvider limit offset [answer]
  | more {offset answer answers} : snapshotSessions sessionProvider offset limit = .ok answer →
      offset < answer.total →
      Pages sessionProvider limit (offset + clampLimit limit) answers →
      Pages sessionProvider limit offset (answer :: answers)

variable {snapshot : Snapshot} {offset limit : UInt32}

theorem clampLimit_pos (limit : UInt32) : 0 < (clampLimit limit).toNat := by
  unfold clampLimit
  split
  · decide
  · rename_i h
    exact Nat.pos_of_ne_zero fun hzero => h (.inl (UInt32.toNat_inj.mp hzero))

theorem clampLimit_le (limit : UInt32) : (clampLimit limit).toNat ≤ 1000 := by
  unfold clampLimit
  split
  · decide
  · rename_i h
    exact Nat.not_lt.mp fun hlt => h (.inr (UInt32.lt_iff_toNat_lt.mpr hlt))

theorem toNat_endIdx (total offset limit : UInt32) : (endIdx total offset limit).toNat =
    min ((offset.toNat + (clampLimit limit).toNat) % 2 ^ 32) total.toNat := by
  unfold endIdx
  split
  · rename_i h
    rw [UInt32.lt_iff_toNat_lt, UInt32.toNat_add] at h
    omega
  · rename_i h
    rw [UInt32.lt_iff_toNat_lt, UInt32.toNat_add] at h
    rw [UInt32.toNat_add]
    omega

theorem endIdx_le (snapshot : Snapshot) (offset limit : UInt32) :
    (endIdx (UInt32.ofNat snapshot.length) offset limit).toNat ≤ snapshot.length := by
  have hmod := Nat.mod_le snapshot.length (2 ^ 32)
  rw [toNat_endIdx, UInt32.toNat_ofNat']
  omega

theorem endIdx_sub_le (total offset limit : UInt32) :
    (endIdx total offset limit).toNat - offset.toNat ≤ (clampLimit limit).toNat := by
  have hmod := Nat.mod_le (offset.toNat + (clampLimit limit).toNat) (2 ^ 32)
  rw [toNat_endIdx]
  omega

theorem listSessions_eq {i count : Nat} {sessions : List SessionInfoData}
    (h : i + count ≤ snapshot.length) : listSessions snapshot i count sessions =
      .ok (sessions ++ infos ((snapshot.drop i).take count)) := by
  induction count generalizing i sessions with
  | zero => simp [listSessions, infos]
  | succ count ih =>
    have hi : i < snapshot.length := by omega
    rw [listSessions, List.getElem?_eq_getElem hi, List.drop_eq_getElem_cons hi,
      List.take_succ_cons]
    cases snapshot[i] with
    | none =>
      simp only [ih (show i + 1 + count ≤ snapshot.length by omega)]
      simp [infos]
    | some pSession =>
      simp only [ih (show i + 1 + count ≤ snapshot.length by omega)]
      simp [infos]

theorem snapshotSessions_eq (snapshot : Snapshot) (offset limit : UInt32) :
    snapshotSessions (some (.snapshot snapshot)) offset limit =
      .ok ⟨UInt32.ofNat snapshot.length, offset, infos (page snapshot offset limit)⟩ := by
  simp only [snapshotSessions, Option.getD_some, page]
  split
  · rfl
  · rename_i hoffset
    have hle := endIdx_le snapshot offset limit
    rw [ge_iff_le, UInt32.le_iff_toNat_le, UInt32.toNat_ofNat'] at hoffset
    have hmod := Nat.mod_le snapshot.length (2 ^ 32)
    rw [listSessions_eq (by omega), List.drop_take]
    rfl

theorem length_infos_le (entries : Snapshot) : (infos entries).length ≤ entries.length := by
  rw [infos, List.length_map]
  exact List.reduceOption_length_le entries

theorem length_page_le (snapshot : Snapshot) (offset limit : UInt32) :
    (page snapshot offset limit).length ≤ (clampLimit limit).toNat := by
  have hend := endIdx_sub_le (UInt32.ofNat snapshot.length) offset limit
  simp only [page]
  split
  · exact Nat.zero_le _
  · rw [List.length_drop, List.length_take]
    omega

theorem snapshotSessions_ne_indexPastEnd (sessionProvider : Option Provided)
    (offset limit : UInt32) :
    snapshotSessions sessionProvider offset limit ≠ .error .indexPastEnd := by
  cases hprovided : sessionProvider.getD (.snapshot []) with
  | snapshot snapshot =>
    have heq := snapshotSessions_eq snapshot offset limit
    simp only [snapshotSessions, Option.getD_some] at heq
    simp only [snapshotSessions, hprovided, heq]
    rintro ⟨⟩
  | stdException =>
    simp only [snapshotSessions, hprovided]
    rintro ⟨⟩
  | foreignException =>
    simp only [snapshotSessions, hprovided]
    rintro ⟨⟩

theorem page_of_lt (hlength : snapshot.length < 2 ^ 32 - 1000)
    (hoffset : offset.toNat < snapshot.length) :
    page snapshot offset limit = (snapshot.drop offset.toNat).take (clampLimit limit).toNat := by
  have hclamp := clampLimit_le limit
  have hend := toNat_endIdx (UInt32.ofNat snapshot.length) offset limit
  have hnot : ¬ offset ≥ UInt32.ofNat snapshot.length := by
    rw [ge_iff_le, UInt32.le_iff_toNat_le, UInt32.toNat_ofNat']
    omega
  rw [UInt32.toNat_ofNat'] at hend
  simp only [page, if_neg hnot]
  rw [List.drop_take]
  refine List.take_eq_take_iff.mpr ?_
  rw [List.length_drop]
  omega

theorem exists_pages (hlength : snapshot.length < 2 ^ 32 - 1000) (offset limit : UInt32) :
    ∃ answers, Pages (some (.snapshot snapshot)) limit offset answers ∧
      (answers.map (·.sessions)).flatten = infos (snapshot.drop offset.toNat) := by
  have htotal : (UInt32.ofNat snapshot.length).toNat = snapshot.length := by
    rw [UInt32.toNat_ofNat']
    omega
  induction hleft : snapshot.length - offset.toNat using Nat.strongRecOn
    generalizing offset with
  | ind left ih =>
    have hanswer := snapshotSessions_eq snapshot offset limit
    by_cases hoffset : offset.toNat < snapshot.length
    · -- one page, and the rest from the offset behind it on
      have hpos := clampLimit_pos limit
      have hclamp := clampLimit_le limit
      have hnext : (offset + clampLimit limit).toNat =
          offset.toNat + (clampLimit limit).toNat := by
        rw [UInt32.toNat_add]
        omega
      obtain ⟨answers, hpages, hflatten⟩ := ih _ (by omega) (offset + clampLimit limit) rfl
      refine ⟨_ :: answers, .more hanswer ?_ hpages, ?_⟩
      · rw [UInt32.lt_iff_toNat_lt, htotal]
        exact hoffset
      · rw [List.map_cons, List.flatten_cons, hflatten, hnext, page_of_lt hlength hoffset, infos,
          infos, infos, ← List.map_append, ← List.reduceOption_append, ← List.drop_drop,
          List.take_append_drop]
    · have hge : offset ≥ UInt32.ofNat snapshot.length := by
        rw [ge_iff_le, UInt32.le_iff_toNat_le, htotal]
        exact Nat.not_lt.mp hoffset
      refine ⟨[_], .last hanswer hge, ?_⟩
      rw [List.drop_eq_nil_of_le (Nat.not_lt.mp hoffset)]
      simp [page, hge, infos]

theorem Pages.answer {answers : List SessionListData}
    (h : Pages (some (.snapshot snapshot)) limit offset answers) : ∀ answer ∈ answers,
      answer.total = UInt32.ofNat snapshot.length ∧
        answer.sessions.length ≤ (clampLimit limit).toNat := by
  have hone : ∀ {offset answer}, snapshotSessions (some (.snapshot snapshot)) offset limit =
      .ok answer → answer.total = UInt32.ofNat snapshot.length ∧
        answer.sessions.length ≤ (clampLimit limit).toNat := by
    intro offset answer hanswer
    cases (snapshotSessions_eq snapshot offset limit).symm.trans hanswer
    exact ⟨rfl, Nat.le_trans (length_infos_le _) (length_page_le snapshot offset limit)⟩
  induction h with
  | last hanswer _ =>
    intro answer hmem
    cases List.mem_singleton.mp hmem
    exact hone hanswer
  | more hanswer _ _ ih =>
    intro answer hmem
    cases hmem with
    | head => exact hone hanswer
    | tail _ hmem => exact ih answer hmem

theorem Pages.unique {sessionProvider : Option Provided} {left right : List SessionListData}
    (hleft : Pages sessionProvider limit offset left)
    (hright : Pages sessionProvider limit offset right) : left = right := by
  induction hleft generalizing right with
  | last hanswer hge =>
    cases hright with
    | last hanswer' _ => rw [Except.ok.inj (hanswer.symm.trans hanswer')]
    | more hanswer' hlt _ =>
      cases Except.ok.inj (hanswer.symm.trans hanswer')
      exact absurd hlt (UInt32.not_lt.mpr hge)
  | more hanswer hlt _ ih =>
    cases hright with
    | last hanswer' hge =>
      cases Except.ok.inj (hanswer.symm.trans hanswer')
      exact absurd hlt (UInt32.not_lt.mpr hge)
    | more hanswer' _ hpages =>
      rw [Except.ok.inj (hanswer.symm.trans hanswer'), ih hpages]

/-- The pages tile the snapshot: every session that is not null, once, in its order; each
page reports the same total and keeps to the limit. No page leaves the snapshot. -/
theorem paging_tiles (snapshot : Snapshot) (limit : UInt32) :
    (∀ sessionProvider offset,
      snapshotSessions sessionProvider offset limit ≠ .error .indexPastEnd) ∧
    (snapshot.length < 2 ^ 32 - 1000 →
      (∃ answers, Pages (some (.snapshot snapshot)) limit 0 answers) ∧
      ∀ answers, Pages (some (.snapshot snapshot)) limit 0 answers →
        (answers.map (·.sessions)).flatten = snapshot.reduceOption.map SessionStats.info ∧
        ∀ answer ∈ answers, answer.total.toNat = snapshot.length ∧
          answer.sessions.length ≤ (clampLimit limit).toNat) := by
  refine ⟨fun sessionProvider offset => snapshotSessions_ne_indexPastEnd _ offset limit, ?_⟩
  intro hlength
  obtain ⟨answers, hpages, hflatten⟩ := exists_pages hlength 0 limit
  refine ⟨⟨answers, hpages⟩, fun answers' hpages' => ?_⟩
  cases hpages.unique hpages'
  refine ⟨hflatten, fun answer hmem => ?_⟩
  obtain ⟨htotal, hlimit⟩ := hpages.answer answer hmem
  refine ⟨?_, hlimit⟩
  rw [htotal, UInt32.toNat_ofNat']
  omega

theorem paging_tiles_of_three : ∃ answers,
    Pages (some (.snapshot [some ⟨1, 2, none, some 7⟩, none, some ⟨3, 4, some 5, some 8⟩])) 2 0
      answers ∧ (answers.map (·.sessions)).flatten = [⟨7, 0, 1, 2⟩, ⟨8, 5, 3, 4⟩] := by
  obtain ⟨-, htiles⟩ := paging_tiles
    [some ⟨1, 2, none, some 7⟩, none, some ⟨3, 4, some 5, some 8⟩] 2
  obtain ⟨⟨answers, hpages⟩, hall⟩ := htiles (by decide)
  exact ⟨answers, hpages, (hall answers hpages).1⟩

inductive ServerMode where
  | unknown
  | iocp
  | rio
deriving DecidableEq, Repr

/-- The CPU percentage is a double, here its bits. -/
structure SummaryData where
  uptimeMs : Int64 := 0
  activeSessionCount : UInt32 := 0
  totalRxBytes : UInt64 := 0
  totalTxBytes : UInt64 := 0
  idleDisconnectCount : UInt64 := 0
  serverMode : ServerMode := .unknown
  processMemoryBytes : UInt64 := 0
  processCpuPercent : UInt64 := 0
  serverTimestampMs : Int64 := 0
deriving DecidableEq, Repr

/-- What a `StatsSampler` has cached. -/
structure Sampled where
  cpuPercent : UInt64
  memoryBytes : UInt64
deriving DecidableEq, Repr

structure ServerStatsCollector where
  serverMode : ServerMode
  startSteadyMs : Int64
deriving DecidableEq, Repr

/-- The clocks, and what the calls come to that the collector makes. The idle count is `none`
when there is no provider or it throws; the sampler may be a null pointer. -/
structure Readings where
  steadyMs : Int64
  wallMs : Int64
  sessionProvider : Option Provided
  idleCount : Option UInt64
  sampler : Option Sampled

def addSessions (out : SummaryData) : Snapshot → SummaryData
  | [] => out
  | none :: rest => addSessions out rest
  | some pSession :: rest =>
      addSessions { out with
        totalRxBytes := out.totalRxBytes + pSession.totalRxBytes
        totalTxBytes := out.totalTxBytes + pSession.totalTxBytes } rest

/-- `SnapshotSummary` behind the call of the session provider. -/
def summarize (collector : ServerStatsCollector) (readings : Readings) (snapshot : Snapshot) :
    SummaryData :=
  let out := addSessions {
    serverMode := collector.serverMode
    uptimeMs := readings.steadyMs - collector.startSteadyMs
    serverTimestampMs := readings.wallMs
    activeSessionCount := UInt32.ofNat snapshot.length } snapshot
  { out with
    idleDisconnectCount := readings.idleCount.getD 0
    processCpuPercent := readings.sampler.elim 0 Sampled.cpuPercent
    processMemoryBytes := readings.sampler.elim 0 Sampled.memoryBytes }

def snapshotSummary (collector : ServerStatsCollector) (readings : Readings) :
    Except Fault SummaryData :=
  match readings.sessionProvider.getD (.snapshot []) with
  | .foreignException => .error .foreignException
  | .stdException => .ok (summarize collector readings [])
  | .snapshot snapshot => .ok (summarize collector readings snapshot)

theorem addSessions_eq (out : SummaryData) (snapshot : Snapshot) :
    addSessions out snapshot = { out with
      totalRxBytes := out.totalRxBytes + ((infos snapshot).map (·.rxBytes)).sum
      totalTxBytes := out.totalTxBytes + ((infos snapshot).map (·.txBytes)).sum } := by
  induction snapshot generalizing out with
  | nil => simp [addSessions, infos]
  | cons entry rest ih =>
    cases entry with
    | none => exact ih out
    | some pSession =>
      rw [addSessions, ih]
      simp [infos, SessionStats.info, UInt64.add_assoc]

/-- The summary and the pages agree, taken of one snapshot: the summary counts what every page
reports as the total, and its sums are those of all the entries that the client has seen when
it has asked for page after page. -/
theorem summary_agrees_with_pages (collector : ServerStatsCollector) (readings : Readings)
    (snapshot : Snapshot) (limit : UInt32)
    (hprovider : readings.sessionProvider = some (.snapshot snapshot))
    (hlength : snapshot.length < 2 ^ 32 - 1000) :
    ∃ summary answers, snapshotSummary collector readings = .ok summary ∧
      Pages readings.sessionProvider limit 0 answers ∧
      (∀ answer ∈ answers, answer.total = summary.activeSessionCount) ∧
      summary.totalRxBytes = ((answers.map (·.sessions)).flatten.map (·.rxBytes)).sum ∧
      summary.totalTxBytes = ((answers.map (·.sessions)).flatten.map (·.txBytes)).sum := by
  obtain ⟨answers, hpages, hflatten⟩ := exists_pages hlength 0 limit
  refine ⟨summarize collector readings snapshot, answers, ?_, hprovider ▸ hpages, ?_, ?_, ?_⟩
  · rw [snapshotSummary, hprovider]
    rfl
  · intro answer hmem
    rw [(hpages.answer answer hmem).1, summarize, addSessions_eq]
  · rw [hflatten, summarize, addSessions_eq]
    exact UInt64.zero_add _
  · rw [hflatten, summarize, addSessions_eq]
    exact UInt64.zero_add _

def twoSessions : Readings where
  steadyMs := 50
  wallMs := 90
  sessionProvider := some (.snapshot [some ⟨1, 2, none, some 7⟩, none, some ⟨3, 4, some 5, some 8⟩])
  idleCount := some 0
  sampler := none

theorem summary_agrees_with_pages_of_two : ∃ summary, ∃ answers : List SessionListData,
    snapshotSummary ⟨.rio, 10⟩ twoSessions = .ok summary ∧
      Pages twoSessions.sessionProvider 2 0 answers ∧
      summary.totalRxBytes = ((answers.map (·.sessions)).flatten.map (·.rxBytes)).sum := by
  obtain ⟨summary, answers, hsummary, hpages, -, hrx, -⟩ :=
    summary_agrees_with_pages ⟨.rio, 10⟩ twoSessions _ 2 rfl (by decide)
  exact ⟨summary, answers, hsummary, hpages, hrx⟩

end FastPort.Services.Stats

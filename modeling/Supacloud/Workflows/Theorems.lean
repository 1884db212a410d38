import Supacloud.Workflows.Lemmas.Replays

/-!
# ワークフローの定理
-/

namespace Supacloud.Workflows

open Library

/-- どの走行でも、動いている run には動いている step とその伝言が一つずつあり、終わった run は伝言を持たずもう変わらない。run の step は
一本につながる。 -/
theorem workflow_runs_sound (os : List Occasion) :
    ((reached os).runs.map Run.id).Nodup ∧ (∀ run ∈ (reached os).runs, RunSound (reached os) run) ∧
      (∀ m ∈ (reached os).queue, ∃ run ∈ (reached os).runs, run.id = m.runId ∧ run.status.active = true) ∧
      ∀ run ∈ (reached os).runs, run.status.active = false → ∀ os',
        (reached (os ++ os')).view run.id = (reached os).view run.id := by
  have hso : Sound (reached os) := reached_sound
  refine ⟨hso.runIds, fun run hrun => hso.runSound hrun, fun m hm => ?_, fun run hrun hac os' => reached_closed hrun hac⟩
  obtain ⟨run, past, t, events, hli, how⟩ := hso.live_message hm
  exact ⟨run, hli.run_mem, hli.held.owner.symm.trans how, hli.held.active⟩

/-- どの走行でも、試みは番号の順に上限まで渡され、表を変える結果は最後に渡した試みのものだけである。成功した要求を送り直すと、いつ送っても、
同じ引数なら記録された状態が返り、違う引数なら例外で、どちらも何も変えない。ただし `start_run` では、run の step を加える取引が、run を始めた
取引より後に始まるときである。`claim_step` は、送るたびに新しい試みを求める。 -/
theorem workflow_attempts_fenced (os : List Occasion) : (∀ t ∈ (reached os).steps, Attempted (reached os) t) ∧
      ∀ before o after, os = before ++ o :: after → ∀ reply s', execute (reached before) o.toMoment o.request = .ok (reply, s') →
        Fenced (reached before) s' o.request ∧ Granted (reached before) s' reply ∧
          ∀ q target, o.request.target = some target → q.target = some target →
            (∀ runId, target = .start runId → Along commit (fun s => Timely s runId) .empty os) → ∀ moment,
              (q.trimmed = o.request.trimmed → Replays (reached os) moment q) ∧
                (q.trimmed ≠ o.request.trimmed → Refuses (reached os) moment q) := by
  refine ⟨fun t ht => reached_sound.attempted ht, ?_⟩
  rintro before o after rfl reply s' hok
  refine ⟨execute_fenced reached_sound hok, execute_granted reached_sound hok, fun q target hta hq htim moment => ?_⟩
  obtain ⟨hch, hre⟩ := execute_recorded reached_sound hok fun c hc => by rw [hc] at hta; cases hta
  have hst : reached (before ++ [o]) = s' := by
    rw [reached_append]
    simp [commit, hok]
  rw [← hst] at hre
  have hsp : before ++ o :: after = (before ++ [o]) ++ after := by simp
  rw [hsp] at htim ⊢
  refine (hre.grows reached_sound reached_grows fun r hr => ?_).resent reached_sound hch (hq.trans hta.symm)
  rw [hr] at hta
  have hal := htim r.runId (Option.some.inj hta).symm
  exact ⟨reached_led (Along.append.mp hal).1, reached_led hal⟩

def opening : Occasion where
  request := .start ⟨2 ^ 63, ['w'], ['1'], ['a'], .object [], 3⟩
  now := 1
  stepId := ⟨2 ^ 63 + 1, by decide⟩
  visible := none
  free := true

def claiming : Occasion := { opening with request := .claim ⟨['v'], 60⟩, visible := some 1 }

def failing (workerId error : Text) : Occasion := { opening with request := .fail ⟨⟨2 ^ 63 + 1, 1, 1, workerId⟩, error⟩ }

def advancing (now : Timestamp) : Occasion where
  request := .advance ⟨⟨2 ^ 63 + 1, 1, 1, ['v']⟩, .object [], ['b'], .object [], 3⟩
  now
  stepId := ⟨2 ^ 63 + 2, by decide⟩
  visible := none
  free := true

theorem failure_resent :
    (∀ moment, Replays (reached [opening, claiming, failing ['v'] ['e']]) moment (failing [' ', 'v'] ['e', ' ']).request) ∧
      (∀ moment, Refuses (reached [opening, claiming, failing ['v'] ['e']]) moment (failing ['v'] ['f']).request) ∧
      ∀ moment, Replays (reached [opening, claiming, advancing 2]) moment opening.request := by
  have hok : ∀ (os : List Occasion) (o : Occasion), (execute (reached os) o.toMoment o.request).isOk = true →
      ∃ x : Reply × Store, execute (reached os) o.toMoment o.request = .ok (x.1, x.2) := by
    intro os o h
    cases hex : execute (reached os) o.toMoment o.request with
    | error e => simp [hex, Except.isOk, Except.toBool] at h
    | ok x => exact ⟨x, rfl⟩
  obtain ⟨x, hfa⟩ := hok [opening, claiming] (failing ['v'] ['e']) (by decide)
  obtain ⟨y, hst⟩ := hok [] opening (by decide)
  have hfai := ((workflow_attempts_fenced [opening, claiming, failing ['v'] ['e']]).2 _ _ [] rfl _ _ hfa).2.2
  have hsta := ((workflow_attempts_fenced [opening, claiming, advancing 2]).2 [] opening [claiming, advancing 2] rfl _ _ hst).2.2
  refine ⟨fun moment => (hfai _ _ rfl rfl nofun moment).1 (by decide), fun moment => (hfai _ _ rfl rfl nofun moment).2 (by decide),
    fun moment => (hsta _ _ rfl rfl ?_ moment).1 rfl⟩
  rintro _ ⟨⟩
  refine ⟨trivial, trivial, ?_, trivial⟩
  show ∀ t ∈ (reached [opening, claiming]).steps, t.id = 2 ^ 63 + 1 → t.runId = 2 ^ 63 →
    ∀ run ∈ (reached [opening, claiming]).runs, run.id = 2 ^ 63 → run.createdAt < 2
  decide

/-- run を始めた取引より前の時刻の取引が step を加えると、`start_run` の送り直しは例外になる。 -/
theorem start_resent_untimely : ¬ Replays (reached [opening, claiming, advancing 0]) opening.toMoment opening.request := by
  rintro ⟨runId, snapshot, receipt, -, hex⟩
  have hrs : (execute (reached [opening, claiming, advancing 0]) opening.toMoment opening.request).isOk = false := by decide
  rw [hex] at hrs
  cases hrs

/-- `claim_step` の送り直しは、記録を返さず、二つ目の試みを渡す。 -/
theorem claim_resent_claims_again :
    (execute (reached [opening]) claiming.toMoment claiming.request).isOk = true ∧
      ¬ Replays (reached [opening, claiming]) claiming.toMoment claiming.request ∧
      claimsOf (2 ^ 63 + 1) (reached [opening, claiming, claiming]).events = [(1, ['v']), (2, ['v'])] := by
  refine ⟨by decide, ?_, by decide⟩
  rintro ⟨runId, snapshot, receipt, -, hex⟩
  have hst : reached [opening, claiming, claiming] = reached [opening, claiming] := by
    have hste : reached [opening, claiming, claiming] = commit (reached [opening, claiming]) claiming := rfl
    rw [hste, commit, hex]
  exact absurd hst (by decide)

/-- 記録は消えない。どの走行の続きでも、run も step も身元と入力を変えずに残り、step の並びは保たれ、終わったものは変わらない。 -/
theorem history_appended (os os' : List Occasion) :
    let s := (reached os)
    let s' := (reached (os ++ os'))
    (∀ run ∈ s.runs, ∃ run' ∈ s'.runs, run.Kept run') ∧
      (∀ r (i : ℕ) t, (s.view r).chain[i]? = some t → ∃ t', (s'.view r).chain[i]? = some t' ∧ t.Kept t') ∧ s.events ⊆ s'.events := by
  intro s s'
  have hgr : s.Grows s' := reached_grows
  refine ⟨fun run hrun => ?_, fun r => (hgr r).chain, fun e he => ?_⟩
  · obtain ⟨run', hrun', hke⟩ := (hgr run.id).rows run (Store.mem_rows.mpr ⟨hrun, rfl⟩)
    exact ⟨run', (Store.mem_rows.mp hrun').1, hke⟩
  · exact (Store.mem_events.mp ((hgr e.runId).events e (Store.mem_events.mpr ⟨he, rfl⟩))).1

end Supacloud.Workflows

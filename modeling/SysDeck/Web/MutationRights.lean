import SysDeck.Web.MutationGate
import SysDeck.Web.SessionTokens

/-! The rights behind a mutation: in a run that never trusts a disabled row or a stale
reading, the accounts of the last minute stand behind every mutation. -/

namespace SysDeck.Web

section Runs

variable (hmac : Hmac) (secret : List Char) (clock : ℤ) (data : AccountData)

/-- Every mutation was run for an admin, on files that were read less than a minute
before its lookup asked for them. -/
theorem mutation_verdicts (labels : List ConsoleLabel) :
    ∀ run ∈ (Execution.run (Console.step hmac secret) (.init clock data) labels).ran,
      run.verdict.admins.asked - 60000 < run.verdict.admins.loaded ∧
      run.verdict.rows.asked - 60000 < run.verdict.rows.loaded ∧
      ∃ profile, run.verdict.profile run.user = some profile ∧ profile.isAdmin := by
  intro run member
  have sound := (Console.reached_sound hmac secret clock data labels).1.ran run member
  exact ⟨sound.verdict.admins.young, sound.verdict.rows.young, sound.admin⟩

/-- In a run that trusts no disabled row and no reading of more than a minute ago, every
mutation is a live admin's: no account that was gone or demoted throughout the minute
before it is behind one. -/
theorem mutations_need_live_admin (labels : List ConsoleLabel)
    (allowed : Execution.Along (Console.step hmac secret) Console.Allowed (.init clock data)
      labels) :
    ∀ run ∈ (Execution.run (Console.step hmac secret) (.init clock data) labels).ran,
      isMutation run.call.module run.call.command = .ok true ∧
      LiveAdmin (Execution.run (Console.step hmac secret) (.init clock data) labels).seen
        run.moment run.user ∧
      (¬ ∀ past, Recent
        (Execution.run (Console.step hmac secret) (.init clock data) labels).seen run.moment past →
          Gone run.user past) ∧
      ¬ ∀ past, Recent
        (Execution.run (Console.step hmac secret) (.init clock data) labels).seen run.moment past →
          Demoted run.user past := by
  have live : Console.Live (Execution.run (Console.step hmac secret) (.init clock data) labels) := by
    have start : Console.Live (.init clock data) ∧ Console.Sound (.init clock data) ∧
        Console.Current (.init clock data) := by
      refine ⟨?_, Console.init_sound clock data, Console.init_current clock data⟩
      intro run member
      cases member
    have kept : ∀ (console : Console) label, console.Allowed label →
        console.Live ∧ console.Sound ∧ console.Current →
        (console.step hmac secret label).Live ∧ (console.step hmac secret label).Sound ∧
          (console.step hmac secret label).Current := by
      rintro console label allowed ⟨live, sound, current⟩
      exact ⟨live.step sound allowed, (sound.act current label).record, Console.record_current _⟩
    exact (Execution.invariant_along kept start allowed).1
  intro run member
  have sound := (Console.reached_sound hmac secret clock data labels).1.ran run member
  have admin := live run member
  exact ⟨sound.mutation, admin, admin.not_gone, admin.not_demoted⟩

end Runs

/-- A local administrator, without a unix account. -/
def sampleAccounts : AccountData where
  passwd := some "root:x:0:0::/root:/bin/sh".toList
  group := some "wheel:x:10:admin".toList
  accounts := .ofList [("admin".toList, { realname := none, disabled := false })]

def sampleMutation : Option (List Char) :=
  some "\x7b\"module\":\"firewall\",\"command\":\"apply\"\x7d".toList

def sampleToken : Option (List Char) := some (sampleBody ++ '.' :: sampleTag)

def sampleRequestLabels : List ConsoleLabel :=
  .request 1 sampleMutation sampleToken :: List.replicate 8 (.resume 1)

def sampleConsole (labels : List ConsoleLabel) : Console :=
  Execution.run (Console.step sampleHmac sampleSecret) (.init 1700000000000 sampleAccounts) labels

def disabledLabels : List ConsoleLabel :=
  .manage (.disable "admin".toList) :: .tick 60001 :: sampleRequestLabels

/-- While the account is enabled the same request is a live admin's. -/
theorem mutations_need_live_admin_enabled :
    (sampleConsole sampleRequestLabels).ran.map (fun run => (run.moment, run.user)) =
        [(1700000000000, "admin".toList)] ∧
      ∀ run ∈ (sampleConsole sampleRequestLabels).ran,
        LiveAdmin (sampleConsole sampleRequestLabels).seen run.moment run.user := by
  have evaluated : (sampleConsole sampleRequestLabels).ran.map (fun run => (run.moment, run.user)) =
        [(1700000000000, "admin".toList)] ∧
      Execution.Along (Console.step sampleHmac sampleSecret) Console.Allowed
        (.init 1700000000000 sampleAccounts) sampleRequestLabels := by
    decide +kernel
  obtain ⟨ran, allowed⟩ := evaluated
  refine ⟨ran, ?_⟩
  intro run member
  exact (mutations_need_live_admin sampleHmac sampleSecret 1700000000000 sampleAccounts
    sampleRequestLabels allowed run member).2.1

/-- A session of an account that was disabled more than a minute ago applies a firewall. -/
theorem mutations_need_live_admin_disabled :
    ∃ run ∈ (sampleConsole disabledLabels).ran,
      isMutation run.call.module run.call.command = .ok true ∧
        ¬ LiveAdmin (sampleConsole disabledLabels).seen run.moment run.user := by
  have evaluated : (sampleConsole disabledLabels).ran.map (fun run => (run.moment, run.user)) =
        [(1700000060001, "admin".toList)] ∧
      ∀ entry ∈ (sampleConsole disabledLabels).seen, 1700000000001 ≤ entry.1 →
        Gone "admin".toList entry.2 := by
    decide +kernel
  obtain ⟨ran, gone⟩ := evaluated
  obtain ⟨run, member, same⟩ : ∃ run ∈ (sampleConsole disabledLabels).ran,
      (run.moment, run.user) = (1700000060001, "admin".toList) := by
    rw [← List.mem_map, ran]
    exact List.mem_singleton_self _
  obtain ⟨moment, user⟩ := Prod.mk.inj same
  refine ⟨run, member, ((Console.reached_sound _ _ _ _ disabledLabels).1.ran run member).mutation, ?_⟩
  intro live
  apply live.not_gone
  rintro past ⟨time, seen, recent, -⟩
  rw [moment] at recent
  rw [user]
  exact gone (time, past) seen recent

end SysDeck.Web

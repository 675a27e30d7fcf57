import NodeAgent.Service

/-!
Surroundings in which no other machine can be reached and no other program is there. Whatever the
files say, no service comes up in them.
-/

namespace NodeAgent

structure Offline where
  deriving DecidableEq, Repr

namespace Offline

instance : HttpNetwork Offline where
  send _ _ h := (h, { answer := none })

instance : Shell Offline where
  execute _ h := (h, .notStarted .notFound)

theorem fetchServer_answer (s : LiveAgenda Offline) (client : ServerClient) :
    (s.fetchServer client).2.2 = .error (.transport client.url openDetail) := rfl

theorem build_fails (a : Agent Offline) : ∃ f, a.build.2 = .error (.failure f) := by
  rw [Agent.build]
  split
  next f _ => exact ⟨f, rfl⟩
  next config _ =>
    split
    · exact ⟨_, rfl⟩
    · have hanswer := fetchServer_answer a.agenda (.ofSettings config.api)
      rcases hfetch : a.agenda.fetchServer (.ofSettings config.api) with ⟨agenda, client, reply⟩
      rw [hfetch] at hanswer
      cases hanswer
      exact ⟨_, rfl⟩

theorem boot_fails (a : Agent Offline) : ∃ f, a.boot.2 = .error (.failure f) := by
  obtain ⟨f, hbuild⟩ := build_fails a.abandon
  rcases h : a.abandon.build with ⟨a', r⟩
  rw [h] at hbuild
  cases hbuild
  exact ⟨f, by rw [Agent.boot, h]⟩

theorem start_fails (path : String) (h : Host Offline) :
    ∃ e, (Service.start path h).2 = .error e := by
  rw [Service.start]
  split
  · exact ⟨_, rfl⟩
  · split
    · exact ⟨_, rfl⟩
    next h _ =>
      obtain ⟨f, hboot⟩ := boot_fails { agenda := { state := { host := h } }, configPath := path }
      dsimp only
      split
      next hup =>
        rw [hup] at hboot
        cases hboot
      · exact ⟨_, rfl⟩
      · exact ⟨_, rfl⟩

end Offline

end NodeAgent

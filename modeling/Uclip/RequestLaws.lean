import Uclip.Effects
import Uclip.EventLoop

/-!
# What the daemon sends

A handler or a restore only appends to what was sent, and what it asks for it
asks over new pipes.
-/

namespace Uclip

open Text (Bytes)

/-- What was sent stays sent; new reads and new `receive` requests are about new
pipes, and no read is forgotten. -/
structure AppState.Asks (s s' : AppState) : Prop where
  sent : s.requests <+: s'.requests
  pipes : s.pipes ≤ s'.pipes
  kept : ∀ read ∈ s.pendingReads, read ∈ s'.pendingReads
  reads : ∀ read ∈ s'.pendingReads, read ∈ s.pendingReads ∨ s.pipes ≤ read.fd
  receives : ∀ offer mime fd, .receive offer mime fd ∈ s'.requests →
    .receive offer mime fd ∈ s.requests ∨ fd < s'.pipes

namespace AppState.Asks

theorem trans {s s' s'' : AppState} (h : s.Asks s') (h' : s'.Asks s'') : s.Asks s'' where
  sent := h.sent.trans h'.sent
  pipes := h.pipes.trans h'.pipes
  kept read hread := h'.kept read (h.kept read hread)
  reads read hread := by
    rcases h'.reads read hread with hread | hle
    · exact h.reads read hread
    · exact .inr (h.pipes.trans hle)
  receives offer mime fd hreq := by
    rcases h'.receives offer mime fd hreq with hreq | hlt
    · exact (h.receives offer mime fd hreq).imp_right h'.pipes.trans_lt'
    · exact .inr hlt

theorem of_send {s s' : AppState} {sent : List Request} (hp : s'.pipes = s.pipes)
    (hr : s'.pendingReads = s.pendingReads) (hs : s'.requests = s.requests ++ sent)
    (hn : ∀ offer mime fd, .receive offer mime fd ∉ sent) : s.Asks s' where
  sent := ⟨sent, hs.symm⟩
  pipes := hp.ge
  kept read hread := hr ▸ hread
  reads read hread := .inl (hr ▸ hread)
  receives offer mime fd hreq := by
    rw [hs, List.mem_append] at hreq
    exact hreq.imp_right fun h => absurd h (hn offer mime fd)

theorem of_eq {s s' : AppState} (hp : s'.pipes = s.pipes)
    (hr : s'.pendingReads = s.pendingReads) (hs : s'.requests = s.requests) : s.Asks s' :=
  of_send hp hr (hs.trans (List.append_nil _).symm) (by simp)

theorem of_effect {io : RequestIo} {event : Event} {s s' : AppState}
    (h : Effect io event s s') : s.Asks s' := by
  cases h with
  | clear => exact of_send rfl rfl rfl (by simp)
  | cancel => exact of_send rfl rfl rfl (by simp)
  | noPipe => exact ⟨List.prefix_rfl, Nat.le_succ _, fun _ => id, fun _ => .inl, fun _ _ _ => .inl⟩
  | ask offer mime =>
    refine ⟨List.prefix_append .., Nat.le_succ _, fun _ => List.mem_append_left _,
      fun read hread => ?_, fun offer' mime' fd hreq => ?_⟩
    · rcases List.mem_append.mp hread with hread | hread
      · exact .inl hread
      · split at hread
        · cases List.mem_singleton.mp hread
          exact .inr (Nat.le_refl _)
        · cases hread
    · rcases List.mem_append.mp hreq with hreq | hreq
      · exact .inl hreq
      · cases List.mem_singleton.mp hreq
        exact .inr (Nat.lt_succ_self _)
  | _ => exact of_eq rfl rfl rfl

theorem dispatch (io : RequestIo) (s : AppState) (event : Event) : s.Asks (dispatch io s event) :=
  dispatch_induct (P := s.Asks) (of_eq rfl rfl rfl) fun _ _ h he => h.trans (of_effect he)

theorem dispatchPending (io : RequestIo) (s : AppState) (events : List Event) :
    s.Asks (dispatchPending io s events) :=
  dispatchPending_induct (P := s.Asks) (of_eq rfl rfl rfl)
    fun _ _ _ _ h he => h.trans (of_effect he)

theorem handleRestore (clock : Clock) (hasher offerHasher : Hasher String Bytes) (d : Daemon)
    (pending : PendingRestore) :
    d.app.Asks (d.handleRestore clock hasher offerHasher pending).app := by
  unfold Daemon.handleRestore
  cases hr : d.app.restoreEntry hasher offerHasher pending.entryId with
  | error err =>
    exact of_eq rfl rfl rfl
  | ok app =>
    obtain ⟨entry, -, -, -, rfl⟩ := restoreEntry_eq_ok hr
    rw [publish_eq]
    exact of_send rfl rfl rfl (by simp [publishRequests])

end AppState.Asks

end Uclip

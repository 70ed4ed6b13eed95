import Ezcap.Library.LockDiscipline

/-! What a thread has done when it answers. The other threads may change the shared state
before each of its operations, as long as they respect the discipline. -/

namespace Prog

variable {M S α : Type}

/-- From `s` with the mutexes `held`, latest first, the thread comes to answer `a` in `s'` with
`held'`. Before each operation the others may change the state by `rely`. -/
inductive Ends (rely : S → S → Prop) :
    Prog M S α → List M → S → α → List M → S → Prop where
  | pure {a held s} : Ends rely (.pure a) held s a held s
  | others {prog held s s₁ a held' s'} (hrely : rely s s₁)
      (h : Ends rely prog held s₁ a held' s') : Ends rely prog held s a held' s'
  | acquire {m next held s a held' s'} (hm : m ∉ held)
      (h : Ends rely next (m :: held) s a held' s') :
      Ends rely (.acquire m next) held s a held' s'
  | release {m next held s a held' s'} (h : Ends rely next held s a held' s') :
      Ends rely (.release m next) (m :: held) s a held' s'
  | access {f next held s a held' s'} (h : Ends rely (next s) held (f s) a held' s') :
      Ends rely (.access f next) held s a held' s'
  | choose {next held s a held' s'} (b : Bool) (h : Ends rely (next b) held s a held' s') :
      Ends rely (.choose next) held s a held' s'

variable {rely : S → S → Prop} {held held' : List M} {s s' : S} {a : α}

/-- A thread that tries to acquire a mutex it holds never answers. -/
theorem Ends.acquire_notMem {m : M} {next : Prog M S α}
    (h : Ends rely (.acquire m next) held s a held' s') : m ∉ held := by
  generalize hprog : Prog.acquire m next = prog at h
  induction h with
  | others _ _ ih => exact ih hprog
  | acquire hm _ =>
      cases hprog
      exact hm
  | _ => cases hprog

end Prog

namespace Discipline

variable {T M S V α : Type} {d : Discipline T M S V} {t : T}

/-- What the other threads may do: they keep the invariant and the view of thread `t`. -/
def Rely (d : Discipline T M S V) (t : T) (s s' : S) : Prop :=
  (d.inv s → d.inv s') ∧ d.view t s' = d.view t s

section Ends

variable {rely : S → S → Prop} {held held' : List M} {v : V} {s s' : S} {a : α} {u : T}
  (hrely : ∀ s s', rely s s' → d.Rely t s s')

include hrely

/-- A thread that answers has come to its exit on the way. -/
theorem Safe.ends {exit : V → List M → Prog M S α → Prop} {prog : Prog M S α}
    (h : Safe d t exit v held prog) (hends : prog.Ends rely held s a held' s') (hs : d.inv s)
    (hv : d.view t s = v) :
    ∃ v₁ held₁ prog₁ s₁, exit v₁ held₁ prog₁ ∧ d.inv s₁ ∧ d.view t s₁ = v₁ ∧
      prog₁.Ends rely held₁ s₁ a held' s' ∧
      ∀ u, u ≠ t → (∀ s s', rely s s' → d.view u s' = d.view u s) → d.view u s₁ = d.view u s := by
  induction hends generalizing v with
  | pure =>
      cases h with
      | exit h => exact ⟨_, _, _, _, h, hs, hv, .pure, fun _ _ _ => rfl⟩
  | others hother hends ih =>
      have hkept := hrely _ _ hother
      obtain ⟨v₁, held₁, prog₁, s₁, hexit, hs₁, hv₁, hlater, hframe⟩ :=
        ih h (hkept.1 hs) (hkept.2.trans hv)
      exact ⟨v₁, held₁, prog₁, s₁, hexit, hs₁, hv₁, hlater, fun u hu hsame =>
        (hframe u hu hsame).trans (hsame _ _ hother)⟩
  | acquire hm hends ih =>
      cases h with
      | exit h => exact ⟨_, _, _, _, h, hs, hv, .acquire hm hends, fun _ _ _ => rfl⟩
      | acquire _ hnext => exact ih hnext hs hv
  | release hends ih =>
      cases h with
      | exit h => exact ⟨_, _, _, _, h, hs, hv, .release hends, fun _ _ _ => rfl⟩
      | release hnext => exact ih hnext hs hv
  | access hends ih =>
      cases h with
      | exit h => exact ⟨_, _, _, _, h, hs, hv, .access hends, fun _ _ _ => rfl⟩
      | access hkeeps hnext =>
          obtain ⟨v₁, held₁, prog₁, s₁, hexit, hs₁, hv₁, hlater, hframe⟩ :=
            ih (hnext _ hs hv) (hkeeps.inv _ hs hv) rfl
          exact ⟨v₁, held₁, prog₁, s₁, hexit, hs₁, hv₁, hlater, fun u hu hsame =>
            (hframe u hu hsame).trans (hkeeps.frame _ hs hv u hu)⟩
  | choose b hends ih =>
      cases h with
      | exit h => exact ⟨_, _, _, _, h, hs, hv, .choose b hends, fun _ _ _ => rfl⟩
      | choose hnext => exact ih (hnext b) hs hv

/-- A thread on its way to acquire a mutex that it holds then never answers. -/
theorem Safe.not_ends {exit : V → List M → Prog M S α → Prop} {prog : Prog M S α}
    (h : Safe d t exit v held prog)
    (hexit : ∀ v held prog, exit v held prog → ∃ m next, prog = .acquire m next ∧ m ∈ held)
    (hs : d.inv s) (hv : d.view t s = v) : ¬ prog.Ends rely held s a held' s' := by
  intro hends
  obtain ⟨_, _, _, _, hstuck, -, -, hlater, -⟩ := Safe.ends hrely h hends hs hv
  obtain ⟨m, next, rfl, hm⟩ := hexit _ _ _ hstuck
  exact hlater.acquire_notMem hm

theorem ends_pure {b : α} (hends : (Prog.pure b : Prog M S α).Ends rely held s a held' s')
    (hs : d.inv s) :
    a = b ∧ held' = held ∧ d.inv s' ∧
      ∀ u, (∀ s s', rely s s' → d.view u s' = d.view u s) → d.view u s' = d.view u s := by
  generalize hprog : Prog.pure b = prog at hends
  induction hends with
  | pure =>
      cases hprog
      exact ⟨rfl, rfl, hs, fun _ _ => rfl⟩
  | others hother _ ih =>
      obtain ⟨ha, hheld, hinv, hview⟩ := ih ((hrely _ _ hother).1 hs) hprog
      exact ⟨ha, hheld, hinv, fun u hsame => (hview u hsame).trans (hsame _ _ hother)⟩
  | _ => cases hprog

/-- The contract of a thread holds of whatever it answers. -/
theorem Triple.ends {post : V → α → Prop} {prog : Prog M S α} (h : Triple d t held v prog post)
    (hends : prog.Ends rely held s a held' s') (hs : d.inv s) (hv : d.view t s = v) :
    held' = held ∧ d.inv s' ∧ post (d.view t s') a := by
  obtain ⟨_, _, _, s₁, ⟨rfl, b, rfl, hpost⟩, hs₁, rfl, hlater, -⟩ := Safe.ends hrely h hends hs hv
  obtain ⟨rfl, rfl, hinv, hview⟩ := ends_pure hrely hlater hs₁
  exact ⟨rfl, hinv, hview t (fun s s' hr => (hrely s s' hr).2) ▸ hpost⟩

/-- What a thread does is not seen by a thread whose view the others keep. -/
theorem Triple.ends_frame {post : V → α → Prop} {prog : Prog M S α}
    (h : Triple d t held v prog post) (hends : prog.Ends rely held s a held' s') (hs : d.inv s)
    (hv : d.view t s = v) (hu : u ≠ t) (hsame : ∀ s s', rely s s' → d.view u s' = d.view u s) :
    d.view u s' = d.view u s := by
  obtain ⟨_, _, _, s₁, ⟨rfl, b, rfl, -⟩, hs₁, rfl, hlater, hframe⟩ := Safe.ends hrely h hends hs hv
  obtain ⟨-, -, -, hview⟩ := ends_pure hrely hlater hs₁
  exact (hview u hsame).trans (hframe u hu hsame)

end Ends

/-- A thread that is left alone gets to its exit, and answers as it does from there. -/
theorem Safe.exists_ends {exit : V → List M → Prog M S α → Prop} {held : List M} {v : V}
    {prog : Prog M S α} (h : Safe d t exit v held prog) (rely : S → S → Prop) {s : S}
    (hs : d.inv s) (hv : d.view t s = v) :
    ∃ v₁ held₁ prog₁ s₁, exit v₁ held₁ prog₁ ∧ ∀ a held' s',
      prog₁.Ends rely held₁ s₁ a held' s' → prog.Ends rely held s a held' s' := by
  induction h generalizing s with
  | exit h => exact ⟨_, _, _, s, h, fun _ _ _ hends => hends⟩
  | acquire hrank _ ih =>
      obtain ⟨_, _, _, _, hexit, hends⟩ := ih hs hv
      exact ⟨_, _, _, _, hexit, fun a held' s' h =>
        .acquire (fun hm => lt_irrefl _ (hrank _ hm)) (hends a held' s' h)⟩
  | release _ ih =>
      obtain ⟨_, _, _, _, hexit, hends⟩ := ih hs hv
      exact ⟨_, _, _, _, hexit, fun a held' s' h => .release (hends a held' s' h)⟩
  | access hkeeps _ ih =>
      obtain ⟨_, _, _, _, hexit, hends⟩ := ih s hs hv (hkeeps.inv s hs hv) rfl
      exact ⟨_, _, _, _, hexit, fun a held' s' h => .access (hends a held' s' h)⟩
  | choose _ ih =>
      obtain ⟨_, _, _, _, hexit, hends⟩ := ih true hs hv
      exact ⟨_, _, _, _, hexit, fun a held' s' h => .choose true (hends a held' s' h)⟩

theorem Triple.exists_ends {post : V → α → Prop} {held : List M} {v : V} {prog : Prog M S α}
    (h : Triple d t held v prog post) (rely : S → S → Prop) {s : S} (hs : d.inv s)
    (hv : d.view t s = v) : ∃ a s', prog.Ends rely held s a held s' := by
  obtain ⟨_, _, _, s₁, ⟨rfl, a, rfl, -⟩, hends⟩ := Safe.exists_ends h rely hs hv
  exact ⟨a, s₁, hends a _ s₁ .pure⟩

end Discipline

import JLua.Lib.Outcomes

/-!
# Code with a gauge

A resource of which the code takes some and gives some back, and a limit that what is taken must
not pass. `Runs c s r n` says that the code, with the gauge put aside, ends with the result `r`, and
that the most it takes on the way is `n`.
-/

namespace Gauge

open OutcomeRules
set_option autoImplicit false

universe u
variable {ε σ α β : Type u}

structure Gauged (σ : Type u) where
  state : σ
  limit : Nat
  overflow : Bool

/-- The state at the end, whatever the end. -/
def endState : EStateM.Result ε σ α → σ
  | .ok _ s => s
  | .error _ s => s

def gauged (limit : Nat) (overflow : Bool) :
    EStateM.Result ε σ α → EStateM.Result ε (Gauged σ) α
  | .ok a s => .ok a ⟨s, limit, overflow⟩
  | .error e s => .error e ⟨s, limit, overflow⟩

/-- Code that does not know of the gauge. -/
def lift (c : EStateM ε σ α) : EStateM ε (Gauged σ) α := fun g =>
  gauged g.limit g.overflow (c g.state)

def demand (n : σ → Nat) : EStateM ε (Gauged σ) PUnit :=
  modify fun g => { g with overflow := g.overflow || decide (g.limit < n g.state) }

def Fits (c : EStateM ε (Gauged σ) α) (s : σ) (limit : Nat) : Prop :=
  (endState (c ⟨s, limit, false⟩)).overflow = false

def Runs (c : EStateM ε (Gauged σ) α) (s : σ) (r : EStateM.Result ε σ α) (n : Nat) : Prop :=
  ∀ limit b, c ⟨s, limit, b⟩ = gauged limit (b || decide (limit < n)) r

/-- The limit may be another one at the end. -/
def RunsTo (c : EStateM ε (Gauged σ) α) (s : σ) (r : EStateM.Result ε σ α) (n : Nat) : Prop :=
  ∀ limit b, ∃ limit', c ⟨s, limit, b⟩ = gauged limit' (b || decide (limit < n)) r

variable {c : EStateM ε (Gauged σ) α} {s s' : σ} {r : EStateM.Result ε σ α}
  {k : α → EStateM ε (Gauged σ) β} {r' : EStateM.Result ε σ β} {m n : Nat}

theorem Runs.runsTo (h : Runs c s r n) : RunsTo c s r n := fun limit b => ⟨limit, h limit b⟩

theorem decide_lt_max (limit m n : Nat) :
    (decide (limit < n) || decide (limit < m)) = decide (limit < max n m) := by
  grind

theorem RunsTo.fits_iff (h : RunsTo c s r n) (limit : Nat) : Fits c s limit ↔ n ≤ limit := by
  obtain ⟨limit', hrun⟩ := h limit false
  unfold Fits
  rw [hrun]
  cases r <;> simp [gauged, endState]

theorem runs_lift (c : EStateM ε σ α) (s : σ) : Runs (lift c) s (c s) 0 := by
  intro limit b
  simp [lift]

theorem runs_demand (f : σ → Nat) (s : σ) :
    Runs (demand f : EStateM ε (Gauged σ) PUnit) s (.ok ⟨⟩ s) (f s) := fun _ _ => rfl

theorem runs_pure (a : α) (s : σ) : Runs (pure a : EStateM ε (Gauged σ) α) s (.ok a s) 0 := by
  intro limit b
  simp only [Nat.not_lt_zero, decide_false, Bool.or_false]
  rfl

theorem runs_state (f : σ → α) (s : σ) :
    Runs (do let g ← get; return f g.state : EStateM ε (Gauged σ) α) s (.ok (f s) s) 0 :=
  runs_pure (f s) s

theorem Runs.bind {a : α} (hc : Runs c s (.ok a s') n) (hk : Runs (k a) s' r' m) :
    Runs (c >>= k) s r' (max n m) := by
  intro limit b
  rw [bind_of_ok (hc limit b), hk, Bool.or_assoc, decide_lt_max]

theorem Runs.bind_to {a : α} (hc : Runs c s (.ok a s') n) (hk : RunsTo (k a) s' r' m) :
    RunsTo (c >>= k) s r' (max n m) := by
  intro limit b
  obtain ⟨limit', hrun⟩ := hk limit (b || decide (limit < n))
  refine ⟨limit', ?_⟩
  rw [bind_of_ok (hc limit b), hrun, Bool.or_assoc, decide_lt_max]

theorem Runs.bind_error {e : ε} (hc : Runs c s (.error e s') n) :
    Runs (c >>= k) s (.error e s') n := fun limit b => bind_of_error (hc limit b)

theorem Runs.of_eq (h : Runs c s r n) (hn : n = m) : Runs c s r m := hn ▸ h

theorem RunsTo.of_eq (h : RunsTo c s r n) (hn : n = m) : RunsTo c s r m := hn ▸ h

/-! ### Code that follows other code -/

/-- The most that the code takes is not more than `n`. -/
def Within (c : EStateM ε (Gauged σ) α) (s : σ) (r : EStateM.Result ε σ α) (n : Nat) : Prop :=
  ∃ m ≤ n, Runs c s r m

theorem Runs.within (h : Runs c s r m) (hm : m ≤ n) : Within c s r n := ⟨m, hm, h⟩

theorem within_pure (a : α) (s : σ) (n : Nat) :
    Within (pure a : EStateM ε (Gauged σ) α) s (.ok a s) n := (runs_pure a s).within (Nat.zero_le n)

theorem within_lift (c : EStateM ε σ α) (s : σ) (n : Nat) : Within (lift c) s (c s) n :=
  (runs_lift c s).within (Nat.zero_le n)

theorem Within.mono (h : Within c s r m) (hm : m ≤ n) : Within c s r n := by
  obtain ⟨k, hk, hruns⟩ := h
  exact hruns.within (Nat.le_trans hk hm)

theorem Runs.bind_le {a : α} (hc : Runs c s (.ok a s') m) (hk : Runs (k a) s' r' n) (hm : m ≤ n) :
    Runs (c >>= k) s r' n := (hc.bind hk).of_eq (Nat.max_eq_right hm)

theorem Runs.bind_last {a : α} (hc : Runs c s (.ok a s') n) (hk : Within (k a) s' r' n) :
    Runs (c >>= k) s r' n := by
  obtain ⟨m, hm, hrest⟩ := hk
  exact (hc.bind hrest).of_eq (Nat.max_eq_left hm)

/-- The first part takes the most. -/
theorem Runs.bind_within {op : EStateM ε σ α} {k' : α → EStateM ε σ β} (hc : Runs c s (op s) n)
    (hk : ∀ a s', op s = .ok a s' → Within (k a) s' (k' a s') n) :
    Runs (c >>= k) s ((op >>= k') s) n := by
  cases hop : op s with
  | ok a s' =>
    rw [hop] at hc
    rw [bind_of_ok hop]
    exact hc.bind_last (hk a s' hop)
  | error e s' =>
    rw [hop] at hc
    rw [bind_of_error hop]
    exact hc.bind_error

theorem Within.bind {op : EStateM ε σ α} {k' : α → EStateM ε σ β} (hc : Within c s (op s) n)
    (hk : ∀ a s', op s = .ok a s' → Within (k a) s' (k' a s') n) :
    Within (c >>= k) s ((op >>= k') s) n := by
  obtain ⟨m, hm, hruns⟩ := hc
  cases hop : op s with
  | ok a s' =>
    rw [hop] at hruns
    obtain ⟨m', hm', hrest⟩ := hk a s' hop
    rw [bind_of_ok hop]
    exact (hruns.bind hrest).within (Nat.max_le.mpr ⟨hm, hm'⟩)
  | error e s' =>
    rw [hop] at hruns
    rw [bind_of_error hop]
    exact hruns.bind_error.within hm

theorem within_ite {p : Prop} [Decidable p] {c' : EStateM ε (Gauged σ) α}
    {op op' : EStateM ε σ α} (hc : Within c s (op s) n) (hc' : Within c' s (op' s) n) :
    Within (if p then c else c') s ((if p then op else op' : EStateM ε σ α) s) n := by
  split
  · exact hc
  · exact hc'

theorem Within.catching {op : EStateM ε σ α} {kind : ε → Bool}
    {handler : ε → EStateM ε (Gauged σ) α} {handler' : ε → EStateM ε σ α}
    (hc : Within c s (op s) n)
    (hhandler : ∀ e s', op s = .error e s' → Within (handler e) s' (handler' e s') n) :
    Within (catching c kind handler) s (catching op kind handler' s) n := by
  obtain ⟨m, hm, hruns⟩ := hc
  cases hop : op s with
  | ok a s' =>
    rw [hop] at hruns
    rw [catching_of_ok hop]
    exact ⟨m, hm, fun limit b => catching_of_ok (hruns limit b)⟩
  | error e s' =>
    rw [hop] at hruns
    rw [catching_of_error hop]
    by_cases hkind : kind e = true
    · obtain ⟨m', hm', hrest⟩ := hhandler e s' hop
      rw [if_pos hkind]
      refine ⟨max m m', Nat.max_le.mpr ⟨hm, hm'⟩, fun limit b => ?_⟩
      refine (catching_of_error (hruns limit b)).trans ?_
      rw [if_pos hkind, hrest, Bool.or_assoc, decide_lt_max]
    · rw [if_neg hkind]
      refine ⟨m, hm, fun limit b => ?_⟩
      refine (catching_of_error (hruns limit b)).trans ?_
      rw [if_neg hkind]
      rfl

end Gauge

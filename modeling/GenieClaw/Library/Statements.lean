import Mathlib.Data.List.Basic

/-!
# Programs of statements that take effect one by one

A program changes a state and may fail. What it changed before it failed stays changed, as
with statements that a database commits on their own. `Triple P x Q E` says what holds of the
state after `x`, once for the case that it returned and once for the case that it failed, and
`Keeps` says of a property that it holds after `x` in either case. `Related P x y Q` runs two
programs side by side. There is one rule for each way to build a program.

* `Triple.bind`, `Triple.weaken`, `Triple.forM`: the rules of pre- and postconditions.
* `Related.bind_same`, `Related.frame`: those for two programs.
-/

namespace GenieClaw.Library

def Program (σ ε α : Type) : Type := σ → Except ε α × σ

namespace Program

variable {σ ε α β : Type}

instance : Monad (Program σ ε) where
  pure a := fun s => (.ok a, s)
  bind x f := fun s =>
    match x s with
    | (.ok a, t) => f a t
    | (.error e, t) => (.error e, t)

def fail (e : ε) : Program σ ε α := fun s => (.error e, s)

/-- The result of a program whose failure is handled. -/
def attempt (x : Program σ ε α) : Program σ ε (Except ε α) := fun s => (.ok (x s).1, (x s).2)

@[simp] theorem pure_apply (a : α) (s : σ) : (pure a : Program σ ε α) s = (.ok a, s) := rfl

@[simp] theorem fail_apply (e : ε) (s : σ) : (fail e : Program σ ε α) s = (.error e, s) := rfl

theorem forM_cons (f : β → Program σ ε Unit) (x : β) (rest : List β) :
    (x :: rest).forM f = (f x >>= fun _ => rest.forM f) := rfl

variable {x : Program σ ε α} {f : α → Program σ ε β} {s t : σ}

theorem bind_apply_ok {a : α} (h : x s = (.ok a, t)) : (x >>= f) s = f a t := by
  show (match x s with
    | (.ok a, t) => f a t
    | (.error e, t) => (.error e, t)) = f a t
  rw [h]

theorem map_apply_ok {a : α} (g : α → β) (h : x s = (.ok a, t)) : (g <$> x) s = (.ok (g a), t) := by
  show (x >>= fun a => pure (g a)) s = (.ok (g a), t)
  rw [bind_apply_ok h]
  rfl

theorem bind_apply_error {e : ε} (h : x s = (.error e, t)) : (x >>= f) s = (.error e, t) := by
  show (match x s with
    | (.ok a, t) => f a t
    | (.error e, t) => (.error e, t)) = (.error e, t)
  rw [h]

theorem bind_congr {y : Program σ ε α} {g : α → Program σ ε β} (hx : x s = y s)
    (hf : ∀ a t, f a t = g a t) : (x >>= f) s = (y >>= g) s := by
  rcases h : y s with ⟨a | a, t⟩
  · rw [bind_apply_error (hx.trans h), bind_apply_error h]
  · rw [bind_apply_ok (hx.trans h), bind_apply_ok h, hf]

theorem pure_bind (a : α) (f : α → Program σ ε β) : (pure a >>= f) = f a := rfl

theorem bind_assoc {γ : Type} (x : Program σ ε α) (f : α → Program σ ε β)
    (g : β → Program σ ε γ) : (x >>= f) >>= g = x >>= fun a => f a >>= g := by
  funext s
  rcases h : x s with ⟨a | a, t⟩
  · rw [bind_apply_error h, bind_apply_error (bind_apply_error h)]
  · rw [bind_apply_ok h]
    rcases hf : f a t with ⟨b | b, u⟩
    · rw [bind_apply_error hf, bind_apply_error ((bind_apply_ok h).trans hf)]
    · rw [bind_apply_ok hf, bind_apply_ok ((bind_apply_ok h).trans hf)]

theorem map_apply (g : α → β) (x : Program σ ε α) (s : σ) :
    (g <$> x) s = ((x s).1.map g, (x s).2) := by
  have hbind : (g <$> x) s = (x >>= fun a => (pure (g a) : Program σ ε β)) s := rfl
  rw [hbind]
  rcases h : x s with ⟨a | a, t⟩
  · rw [bind_apply_error h]
    rfl
  · rw [bind_apply_ok h]
    rfl

theorem bind_eq_ok {b : β} (h : (x >>= f) s = (.ok b, t)) :
    ∃ a u, x s = (.ok a, u) ∧ f a u = (.ok b, t) := by
  rcases hrun : x s with ⟨e | a, u⟩
  · rw [bind_apply_error hrun] at h
    cases h
  · rw [bind_apply_ok hrun] at h
    exact ⟨a, u, rfl, h⟩

theorem map_eq_ok {g : α → β} {b : β} (h : (g <$> x) s = (.ok b, t)) : ∃ a, x s = (.ok a, t) := by
  rw [map_apply] at h
  rcases hrun : x s with ⟨e | a, u⟩
  · rw [hrun] at h
    cases h
  · rw [hrun] at h
    cases h
    exact ⟨a, rfl⟩

/-- After `x` from a state with `P`: `Q` if it returned, `E` if it failed. -/
def Triple (P : σ → Prop) (x : Program σ ε α) (Q : α → σ → Prop) (E : ε → σ → Prop) : Prop :=
  ∀ s, P s →
    match x s with
    | (.ok a, t) => Q a t
    | (.error e, t) => E e t

def Keeps (P : σ → Prop) (x : Program σ ε α) : Prop := Triple P x (fun _ => P) (fun _ => P)

namespace Triple

variable {P P' : σ → Prop} {Q Q' : α → σ → Prop} {E E' : ε → σ → Prop}

theorem of_run
    (h : ∀ s, P s → (∃ a t, x s = (.ok a, t) ∧ Q a t) ∨ ∃ e t, x s = (.error e, t) ∧ E e t) :
    Triple P x Q E := by
  intro s hs
  rcases h s hs with ⟨a, t, hrun, hQ⟩ | ⟨e, t, hrun, hE⟩
  · rw [hrun]
    exact hQ
  · rw [hrun]
    exact hE

protected theorem pure {a : α} (h : ∀ s, P s → Q a s) : Triple P (pure a) Q E := h

protected theorem fail {e : ε} (h : ∀ s, P s → E e s) : Triple P (fail e) Q E := h

protected theorem bind {R : α → σ → Prop} {Q : β → σ → Prop} (hx : Triple P x R E)
    (hf : ∀ a, Triple (R a) (f a) Q E) : Triple P (x >>= f) Q E := by
  intro s hs
  have hafter := hx s hs
  rcases h : x s with ⟨a | a, t⟩
  · rw [h] at hafter
    rw [bind_apply_error h]
    exact hafter
  · rw [h] at hafter
    rw [bind_apply_ok h]
    exact hf a t hafter

theorem weaken (hx : Triple P x Q E) (hP : ∀ s, P' s → P s) (hQ : ∀ a s, Q a s → Q' a s)
    (hE : ∀ e s, E e s → E' e s) : Triple P' x Q' E' := by
  intro s hs
  have hafter := hx s (hP s hs)
  rcases h : x s with ⟨a | a, t⟩
  · rw [h] at hafter
    exact hE a t hafter
  · rw [h] at hafter
    exact hQ a t hafter

theorem after {R : σ → Prop} (hx : Triple P x (fun _ => R) fun _ => R) {s : σ} (hs : P s) :
    R (x s).2 := by
  have h := hx s hs
  rcases hrun : x s with ⟨a | a, t⟩
  · rw [hrun] at h
    exact h
  · rw [hrun] at h
    exact h

theorem strengthen (hx : Triple P x Q E) (hP : ∀ s, P' s → P s) : Triple P' x Q E :=
  hx.weaken hP (fun _ _ h => h) (fun _ _ h => h)

theorem forM {f : β → Program σ ε Unit} (I : List β → σ → Prop) {xs : List β}
    (h : ∀ x ∈ xs, ∀ rest, Triple (I (x :: rest)) (f x) (fun _ => I rest) E) :
    Triple (I xs) (xs.forM f) (fun _ => I []) E := by
  induction xs with
  | nil => exact Triple.pure fun _ hs => hs
  | cons x rest ih =>
    have hrest := ih fun y hy => h y (List.mem_cons_of_mem x hy)
    exact Triple.bind (h x List.mem_cons_self rest) fun _ => hrest

end Triple

namespace Keeps

variable {P : σ → Prop}

protected theorem pure (a : α) : Keeps P (pure a : Program σ ε α) := Triple.pure fun _ hs => hs

protected theorem fail (e : ε) : Keeps P (fail e : Program σ ε α) := Triple.fail fun _ hs => hs

protected theorem bind (hx : Keeps P x) (hf : ∀ a, Keeps P (f a)) : Keeps P (x >>= f) :=
  Triple.bind hx hf

protected theorem attempt (hx : Keeps P x) : Keeps P (attempt x) :=
  fun _ hs => hx.after hs

protected theorem ite {c : Prop} [Decidable c] {x y : Program σ ε α} (hx : Keeps P x)
    (hy : Keeps P y) : Keeps P (if c then x else y) := by
  split
  · exact hx
  · exact hy

protected theorem forM {f : β → Program σ ε Unit} {xs : List β} (h : ∀ x ∈ xs, Keeps P (f x)) :
    Keeps P (xs.forM f) := by
  induction xs with
  | nil => exact Keeps.pure ()
  | cons x rest ih =>
    have hrest := ih fun y hy => h y (List.mem_cons_of_mem x hy)
    exact Keeps.bind (h x List.mem_cons_self) fun _ => hrest

end Keeps

/-! ## Programs that cannot fail -/

def Returns (x : Program σ ε α) : Prop := ∀ s, ∃ a t, x s = (.ok a, t)

namespace Returns

protected theorem pure (a : α) : Returns (pure a : Program σ ε α) := fun s => ⟨a, s, rfl⟩

protected theorem bind (hx : Returns x) (hf : ∀ a, Returns (f a)) : Returns (x >>= f) := by
  intro s
  obtain ⟨a, t, hrun⟩ := hx s
  obtain ⟨b, u, hrest⟩ := hf a t
  exact ⟨b, u, (bind_apply_ok hrun).trans hrest⟩

end Returns

/-! ## Two programs side by side -/

/-- From states related by `P` both programs return, and `Q` relates what they end with. -/
def Related {τ : Type} (P : σ → τ → Prop) (x : Program σ ε α) (y : Program τ ε β)
    (Q : α → β → σ → τ → Prop) : Prop :=
  ∀ s t, P s t → ∃ a b s' t', x s = (.ok a, s') ∧ y t = (.ok b, t') ∧ Q a b s' t'

namespace Related

variable {τ γ δ : Type} {P : σ → τ → Prop}

protected theorem pure {a : α} {b : β} {Q : α → β → σ → τ → Prop} (h : ∀ s t, P s t → Q a b s t) :
    Related P (pure a : Program σ ε α) (pure b : Program τ ε β) Q :=
  fun s t hst => ⟨a, b, s, t, rfl, rfl, h s t hst⟩

variable {y : Program τ ε β}

protected theorem bind {f : α → Program σ ε γ} {g : β → Program τ ε δ} {R : α → β → σ → τ → Prop}
    {Q : γ → δ → σ → τ → Prop} (hxy : Related P x y R)
    (hfg : ∀ a b, Related (R a b) (f a) (g b) Q) : Related P (x >>= f) (y >>= g) Q := by
  intro s t hst
  obtain ⟨a, b, s₁, t₁, hx, hy, hR⟩ := hxy s t hst
  obtain ⟨c, d, s₂, t₂, hf, hg, hQ⟩ := hfg a b s₁ t₁ hR
  exact ⟨c, d, s₂, t₂, (bind_apply_ok hx).trans hf, (bind_apply_ok hy).trans hg, hQ⟩

variable {R : α → σ → τ → Prop}

theorem bind_same {y : Program τ ε α} {f : α → Program σ ε γ} {g : α → Program τ ε δ}
    {Q : γ → δ → σ → τ → Prop} (hxy : Related P x y fun a b s t => a = b ∧ R a s t)
    (hfg : ∀ a, Related (R a) (f a) (g a) Q) : Related P (x >>= f) (y >>= g) Q := by
  refine .bind hxy fun a b => ?_
  rintro s t ⟨rfl, hR⟩
  exact hfg a s t hR

protected theorem bind_left {f : α → Program σ ε γ} {Q : γ → β → σ → τ → Prop}
    (hx : Related P x (pure () : Program τ ε Unit) fun a _ => R a)
    (hf : ∀ a, Related (R a) (f a) y Q) : Related P (x >>= f) y Q := by
  intro s t hst
  obtain ⟨a, _, s₁, t₁, hrun, hstay, hR⟩ := hx s t hst
  obtain ⟨c, b, s₂, t₂, hrest, hy, hQ⟩ := hf a s₁ t₁ hR
  obtain ⟨-, rfl⟩ := Prod.mk.inj hstay
  exact ⟨c, b, s₂, t₂, (bind_apply_ok hrun).trans hrest, hy, hQ⟩

theorem frame {F : τ → Prop} (hx : Related P x (pure () : Program τ ε Unit) fun a _ => R a) :
    Related (fun s t => P s t ∧ F t) x (pure ()) fun a _ s t => R a s t ∧ F t := by
  rintro s t ⟨hst, hF⟩
  obtain ⟨a, _, s₁, t₁, hrun, hstay, hR⟩ := hx s t hst
  obtain ⟨-, rfl⟩ := Prod.mk.inj hstay
  exact ⟨a, (), s₁, t, hrun, rfl, hR, hF⟩

end Related

end Program

end GenieClaw.Library

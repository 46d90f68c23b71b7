import GenieClaw.Library.Statements

/-!
# Sessions with a database

A session holds the tables, which of its next statements fail, and the clock. A list of
statements that has run out means that all is well, and a clock that has run out stands at zero.
A statement commits on its own unless it is part of a transaction, which undoes what it has done
when it fails.

* `transaction_spec`: all of a transaction is kept or nothing of it.
-/

namespace GenieClaw.Library

structure Session (δ : Type) where
  db : δ
  sql : List Bool := []
  clock : List Int := []

inductive SqlError where
  | failed
  | constraint
deriving DecidableEq

namespace Session

open Program

variable {δ α β : Type}

/-- A statement that a constraint may refuse. -/
def statement (f : δ → Option (α × δ)) : Program (Session δ) SqlError α := fun s =>
  match s.sql with
  | false :: rest => (.error .failed, { s with sql := rest })
  | sql =>
    match f s.db with
    | none => (.error .constraint, { s with sql := sql.tail })
    | some (a, db) => (.ok a, { s with db, sql := sql.tail })

def query (f : δ → α) : Program (Session δ) SqlError α := statement fun db => some (f db, db)

def execute (f : δ → δ) : Program (Session δ) SqlError Unit := statement fun db => some ((), f db)

def nowMs : Program (Session δ) SqlError Int := fun s =>
  (.ok (s.clock.headD 0), { s with clock := s.clock.tail })

/-- The statements between `BEGIN` and `COMMIT`, with both of these. -/
def committed (x : Program (Session δ) SqlError α) : Program (Session δ) SqlError α := do
  execute id
  let a ← x
  execute id
  pure a

/-- Dropping a transaction that was not committed rolls it back. -/
def transaction (x : Program (Session δ) SqlError α) : Program (Session δ) SqlError α := fun s =>
  match committed x s with
  | (.ok a, t) => (.ok a, t)
  | (.error e, t) => (.error e, { t with db := s.db })

/-- Every statement to come succeeds. -/
def Smooth (s : Session δ) : Prop := ∀ ok ∈ s.sql, ok = true

/-! ## Statements -/

theorem statement_cases (f : δ → Option (α × δ)) (s : Session δ) :
    (false ∈ s.sql ∧ statement f s = (.error .failed, { s with sql := s.sql.tail })) ∨
      (f s.db = none ∧ statement f s = (.error .constraint, { s with sql := s.sql.tail })) ∨
      ∃ a db, f s.db = some (a, db) ∧
        statement f s = (.ok a, { s with db, sql := s.sql.tail }) := by
  have hrest : ∀ sql : List Bool, (f s.db = none ∧
      (match f s.db with
        | none => (.error .constraint, { s with sql := sql.tail })
        | some (a, db) => (.ok a, { s with db, sql := sql.tail }) :
          Except SqlError α × Session δ) = (.error .constraint, { s with sql := sql.tail })) ∨
      ∃ a db, f s.db = some (a, db) ∧ (match f s.db with
        | none => (.error .constraint, { s with sql := sql.tail })
        | some (a, db) => (.ok a, { s with db, sql := sql.tail }) :
          Except SqlError α × Session δ) = (.ok a, { s with db, sql := sql.tail }) := fun sql => by
    rcases hf : f s.db with _ | ⟨a, db⟩
    · exact .inl ⟨rfl, rfl⟩
    · exact .inr ⟨a, db, rfl, rfl⟩
  unfold statement
  rcases hsql : s.sql with _ | ⟨_ | _, rest⟩
  · exact .inr (hrest [])
  · exact .inl ⟨List.mem_cons_self, rfl⟩
  · exact .inr (hrest (true :: rest))

variable {Q : α → δ → Prop}

theorem statement_spec {P E : δ → Prop} {f : δ → Option (α × δ)}
    (h : ∀ db, P db → ∀ a db', f db = some (a, db') → Q a db') (hfail : ∀ db, P db → E db) :
    Triple (fun s => P s.db) (statement f) (fun a s => Q a s.db) fun _ s => E s.db := by
  apply Triple.of_run
  intro s hs
  rcases statement_cases f s with ⟨-, hrun⟩ | ⟨-, hrun⟩ | ⟨a, db, hf, hrun⟩
  · exact .inr ⟨_, _, hrun, hfail s.db hs⟩
  · exact .inr ⟨_, _, hrun, hfail s.db hs⟩
  · exact .inl ⟨_, _, hrun, h s.db hs a db hf⟩

variable {P : δ → Prop}

theorem query_spec (f : δ → α) :
    Triple (fun s => P s.db) (query f) (fun a s => P s.db ∧ a = f s.db) fun _ s => P s.db := by
  refine statement_spec (P := P) (Q := fun a db => P db ∧ a = f db) (E := P)
    (fun db hdb a db' hf => ?_) fun _ hdb => hdb
  obtain ⟨rfl, rfl⟩ := Prod.mk.inj (Option.some.inj hf)
  exact ⟨hdb, rfl⟩

theorem execute_spec {P Q E : δ → Prop} {f : δ → δ} (h : ∀ db, P db → Q (f db))
    (hfail : ∀ db, P db → E db) :
    Triple (fun s => P s.db) (execute f) (fun _ s => Q s.db) fun _ s => E s.db := by
  refine statement_spec (fun db hdb a db' hf => ?_) hfail
  obtain ⟨-, rfl⟩ := Prod.mk.inj (Option.some.inj hf)
  exact h db hdb

variable {E : SqlError → Session δ → Prop}

theorem statement_smooth {f : δ → Option (α × δ)}
    (h : ∀ db, P db → ∃ a db', f db = some (a, db') ∧ Q a db') :
    Triple (fun s => P s.db ∧ s.Smooth) (statement f) (fun a s => Q a s.db ∧ s.Smooth) E := by
  apply Triple.of_run
  rintro s ⟨hP, hsmooth⟩
  obtain ⟨a, db', hf, hQ⟩ := h s.db hP
  rcases statement_cases f s with ⟨hfalse, -⟩ | ⟨hnone, -⟩ | ⟨a', db, hsome, hrun⟩
  · exact absurd (hsmooth false hfalse) (by decide)
  · rw [hf] at hnone
    cases hnone
  · rw [hf] at hsome
    cases hsome
    exact .inl ⟨_, _, hrun, hQ, fun ok hok => hsmooth ok (List.mem_of_mem_tail hok)⟩

theorem execute_smooth {P Q : δ → Prop} {f : δ → δ} (h : ∀ db, P db → Q (f db)) :
    Triple (fun s => P s.db ∧ s.Smooth) (execute f) (fun _ s => Q s.db ∧ s.Smooth) E :=
  statement_smooth fun db hdb => ⟨(), f db, rfl, h db hdb⟩

theorem query_smooth (f : δ → α) :
    Triple (fun s => P s.db ∧ s.Smooth) (query f) (fun _ s => P s.db ∧ s.Smooth) E :=
  statement_smooth fun db hdb => ⟨f db, db, rfl, hdb⟩

theorem nowMs_smooth : Triple (fun s => P s.db ∧ s.Smooth) nowMs (fun _ s => P s.db ∧ s.Smooth) E :=
  fun _ hs => hs

/-! ## Transactions -/

variable {x : Program (Session δ) SqlError α}

theorem transaction_error {s t : Session δ} {e : SqlError} (h : transaction x s = (.error e, t)) :
    t.db = s.db := by
  unfold transaction at h
  rcases hrun : committed x s with ⟨a | a, u⟩
  · rw [hrun] at h
    obtain ⟨-, rfl⟩ := Prod.mk.inj h
    rfl
  · rw [hrun] at h
    cases (Prod.mk.inj h).1

theorem execute_id_cases (s : Session δ) :
    (∃ e t, execute id s = (.error e, t)) ∨
      execute id s = (.ok (), { s with sql := s.sql.tail }) := by
  rcases statement_cases (fun db : δ => some ((), id db)) s with
    ⟨-, hrun⟩ | ⟨hnone, -⟩ | ⟨_, db, hdb, hrun⟩
  · exact .inl ⟨_, _, hrun⟩
  · cases hnone
  · cases hdb
    exact .inr hrun

theorem transaction_ok {s t : Session δ} {a : α} (h : transaction x s = (.ok a, t)) :
    ∃ sql u, x { s with sql } = (.ok a, u) ∧ t.db = u.db := by
  have hcommitted : committed x s = (.ok a, t) := by
    unfold transaction at h
    rcases hrun : committed x s with ⟨b | b, u⟩
    · rw [hrun] at h
      cases (Prod.mk.inj h).1
    · rw [hrun] at h
      exact h
  unfold committed at hcommitted
  rcases execute_id_cases s with ⟨e, u, hbegin⟩ | hbegin
  · rw [bind_apply_error hbegin] at hcommitted
    cases (Prod.mk.inj hcommitted).1
  · rw [bind_apply_ok hbegin] at hcommitted
    rcases hx : x { s with sql := s.sql.tail } with ⟨b | b, u⟩
    · rw [bind_apply_error hx] at hcommitted
      cases (Prod.mk.inj hcommitted).1
    · rw [bind_apply_ok hx] at hcommitted
      rcases execute_id_cases u with ⟨e, v, hend⟩ | hend
      · rw [bind_apply_error hend] at hcommitted
        cases (Prod.mk.inj hcommitted).1
      · rw [bind_apply_ok hend] at hcommitted
        obtain ⟨hb, rfl⟩ := Prod.mk.inj hcommitted
        cases hb
        exact ⟨_, u, hx, rfl⟩

theorem transaction_spec (hx : Triple (fun s => P s.db) x (fun a s => Q a s.db) E) :
    Triple (fun s => P s.db) (transaction x) (fun a s => Q a s.db) fun _ s => P s.db := by
  have hcommitted : Triple (fun s : Session δ => P s.db) (committed x) (fun a s => Q a s.db)
      fun _ _ => True := by
    refine Triple.bind ((execute_spec (Q := P) (E := P) (fun _ h => h) fun _ h => h).weaken
      (fun _ h => h) (fun _ _ h => h) fun _ _ _ => trivial) fun _ => ?_
    refine Triple.bind (hx.weaken (fun _ h => h) (fun _ _ h => h) fun _ _ _ => trivial) fun a => ?_
    refine Triple.bind ((execute_spec (Q := Q a) (E := Q a) (fun _ h => h) fun _ h => h).weaken
      (fun _ h => h) (fun _ _ h => h) fun _ _ _ => trivial) fun _ => ?_
    exact Triple.pure fun _ h => h
  intro s hs
  have hafter := hcommitted s hs
  rcases hrun : committed x s with ⟨a | a, t⟩
  · unfold transaction
    rw [hrun]
    exact hs
  · rw [hrun] at hafter
    unfold transaction
    rw [hrun]
    exact hafter

theorem transaction_smooth
    (hx : Triple (fun s => P s.db ∧ s.Smooth) x (fun a s => Q a s.db ∧ s.Smooth) fun _ _ => False) :
    Triple (fun s => P s.db ∧ s.Smooth) (transaction x) (fun a s => Q a s.db ∧ s.Smooth)
      fun _ _ => False := by
  have hcommitted : Triple (fun s => P s.db ∧ s.Smooth) (committed x)
      (fun a s => Q a s.db ∧ s.Smooth) fun _ _ => False := by
    refine Triple.bind (execute_smooth (Q := P) fun _ h => h) fun _ => ?_
    refine Triple.bind hx fun a => ?_
    exact Triple.bind (execute_smooth (Q := Q a) fun _ h => h) fun _ => Triple.pure fun _ h => h
  intro s hs
  have hafter := hcommitted s hs
  rcases hrun : committed x s with ⟨a | a, t⟩
  · rw [hrun] at hafter
    exact hafter.elim
  · rw [hrun] at hafter
    unfold transaction
    rw [hrun]
    exact hafter

end Session

end GenieClaw.Library

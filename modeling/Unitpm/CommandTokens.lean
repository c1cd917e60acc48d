import Unitpm.StartArgs

/-! # Where the arguments of `unitpm start` go

`rolesFrom` follows the loop of `parse` and says what the parser does with each token.  The handlers
of `handle_flag` move the cursor to the value before they know that they can use it; when they fail
behind the first command token, `parse` keeps the flag as a command token and goes on behind the
value, which is then nowhere (`Role.dropped`).

`Accounts` reads roles as a parse: flags with their values make the options, and the command tokens,
in order, make the command.  The roles of a successful parse account for its result if and only if
no flag that reads a number meets a value it cannot read (`tokens_accounted_iff`). -/

namespace Unitpm.Start

/-! ### Roles -/

/-- What becomes of a token. -/
inductive Role where
  | flag
  | value
  | separator
  | command
  | dropped
deriving DecidableEq

/-- The roles that the loop of `parse` gives to the tokens; `ahead` is the role of a token that the
cursor has moved to. -/
def rolesFrom (p : SpecParser) (ahead : Option Role) : List String → List Role
  | [] => []
  | arg :: rest =>
      match ahead with
      | some r => r :: rolesFrom p none rest
      | none =>
          if arg = "--" then .separator :: rest.map fun _ => .command
          else if isFlag arg then
            match handleFlag p.options arg rest.head? with
            | (moved, .ok o) =>
                .flag ::
                  rolesFrom { p with options := o } (if moved then some .value else none) rest
            | (moved, .error _) =>
                .command :: rolesFrom (p.push arg) (if moved then some .dropped else none) rest
          else .command :: rolesFrom (p.push arg) none rest

/-- The roles of the tokens, read as a parse: from the options at the start to the options at the
end and the tokens of the command. -/
inductive Accounts : Options → List (String × Role) → Options → List String → Prop where
  | nil (o : Options) : Accounts o [] o []
  | switch {arg : String} {set : Options → Options} {o o' : Options} {l : List (String × Role)}
      {command : List String} : flagOf arg = some (.switch set) → Accounts (set o) l o' command →
      Accounts o ((arg, .flag) :: l) o' command
  | option {arg v : String} {f : Flag} {o o₁ o' : Options} {l : List (String × Role)}
      {command : List String} : flagOf arg = some f → (∀ set, f ≠ .switch set) →
      f.read v o = .ok o₁ → Accounts o₁ l o' command →
      Accounts o ((arg, .flag) :: (v, .value) :: l) o' command
  | separator (o : Options) (rest : List String) :
      Accounts o (("--", .separator) :: rest.map fun a => (a, .command)) o rest
  | command {arg : String} {o o' : Options} {l : List (String × Role)} {command : List String} :
      Accounts o l o' command → Accounts o ((arg, .command) :: l) o' (arg :: command)

theorem Accounts.not_dropped {o o' : Options} {l : List (String × Role)} {command : List String}
    (h : Accounts o l o' command) : ∀ a ∈ l, a.2 ≠ .dropped := by
  induction h with
  | nil o => simp
  | switch _ _ ih => exact List.forall_mem_cons.mpr ⟨by simp, ih⟩
  | option _ _ _ _ ih =>
      exact List.forall_mem_cons.mpr ⟨by simp, List.forall_mem_cons.mpr ⟨by simp, ih⟩⟩
  | separator o rest => simp
  | command _ ih => exact List.forall_mem_cons.mpr ⟨by simp, ih⟩

/-- No flag meets a value it cannot read, up to a `--` that is not a value. -/
def kept : List String → Bool
  | [] => true
  | arg :: rest =>
      match shape arg with
      | .separator => true
      | .word | .unknown | .switch => kept rest
      | .option accepts =>
          match rest with
          | [] => true
          | v :: rest => accepts v && kept rest

/-! ### One round of the loop -/

theorem round_ok {p : SpecParser} {arg : String} {rest : List String} {moved : Bool} {o : Options}
    (hsep : arg ≠ "--") (hflag : isFlag arg = true)
    (hh : handleFlag p.options arg rest.head? = (moved, .ok o)) :
    rolesFrom p none (arg :: rest) =
        .flag :: rolesFrom { p with options := o } (if moved then some .value else none) rest ∧
      ∀ q, parseFrom p false (arg :: rest) = .ok q →
        parseFrom { p with options := o } moved rest = .ok q := by
  constructor
  · rw [rolesFrom, if_neg hsep, if_pos hflag, hh]
  · intro q h
    rw [parseFrom_cons hsep, parseStep, if_pos hflag, hh] at h
    exact h

/-- A flag that fails: a parse that goes on has kept it as a command token. -/
theorem round_error {p : SpecParser} {arg e : String} {rest : List String} {moved : Bool}
    (hsep : arg ≠ "--") (hflag : isFlag arg = true)
    (hh : handleFlag p.options arg rest.head? = (moved, .error e)) :
    rolesFrom p none (arg :: rest) =
        .command :: rolesFrom (p.push arg) (if moved then some .dropped else none) rest ∧
      ∀ q, parseFrom p false (arg :: rest) = .ok q →
        parseFrom (p.push arg) moved rest = .ok q := by
  constructor
  · rw [rolesFrom, if_neg hsep, if_pos hflag, hh]
  · intro q h
    rw [parseFrom_cons hsep, parseStep, if_pos hflag, hh] at h
    simp only at h
    rcases recover_cases p arg moved e with ⟨-, hr⟩ | ⟨-, hr⟩
    · rw [hr] at h
      exact h
    · rw [hr] at h
      cases h

/-- How the parser and the roles go on behind a token. -/
theorem round_cases (p : SpecParser) {arg : String} (hsep : arg ≠ "--") (rest : List String) :
    ((shape arg = .word ∨ shape arg = .unknown) ∧
      rolesFrom p none (arg :: rest) = .command :: rolesFrom (p.push arg) none rest ∧
      ∀ q, parseFrom p false (arg :: rest) = .ok q → parseFrom (p.push arg) false rest = .ok q) ∨
    (shape arg = .switch ∧ ∃ set, flagOf arg = some (.switch set) ∧
      rolesFrom p none (arg :: rest) =
        .flag :: rolesFrom { p with options := set p.options } none rest ∧
      ∀ q, parseFrom p false (arg :: rest) = .ok q →
        parseFrom { p with options := set p.options } false rest = .ok q) ∨
    (∃ f, flagOf arg = some f ∧ (∀ set, f ≠ .switch set) ∧ shape arg = .option f.accepts ∧
      ((∃ v o, rest.head? = some v ∧ f.read v p.options = .ok o ∧ f.accepts v = true ∧
          rolesFrom p none (arg :: rest) =
            .flag :: rolesFrom { p with options := o } (some .value) rest ∧
          ∀ q, parseFrom p false (arg :: rest) = .ok q →
            parseFrom { p with options := o } true rest = .ok q) ∨
        ((∀ v, rest.head? = some v → f.accepts v = false) ∧
          rolesFrom p none (arg :: rest) =
            .command :: rolesFrom (p.push arg) (some .dropped) rest ∧
          ∀ q, parseFrom p false (arg :: rest) = .ok q →
            parseFrom (p.push arg) true rest = .ok q))) := by
  by_cases hflag : isFlag arg = true
  · cases hf : flagOf arg with
    | none =>
        have hh : handleFlag p.options arg rest.head? =
            (false, .error ("unknown flag: " ++ arg)) := by
          unfold handleFlag
          rw [hf]
        exact .inl ⟨.inr (by rw [shape, if_neg hsep, if_pos hflag, hf]), round_error hsep hflag hh⟩
    | some f =>
        cases hf' : f with
        | switch set =>
            subst hf'
            have hh : handleFlag p.options arg rest.head? = (false, .ok (set p.options)) := by
              unfold handleFlag
              rw [hf]
            exact .inr (.inl ⟨by rw [shape, if_neg hsep, if_pos hflag, hf], set, rfl,
              round_ok hsep hflag hh⟩)
        | _ =>
            rw [← hf']
            have hs : ∀ set, f ≠ .switch set := by simp [hf']
            refine .inr (.inr ⟨f, rfl, hs, by rw [shape, if_neg hsep, if_pos hflag, hf, hf'], ?_⟩)
            rcases handleFlag_option hf hs p.options rest.head? with
              ⟨v, o, hv, ha, hh⟩ | ⟨ha, e, hh⟩
            · have hval : handleFlag p.options arg (some v) = (true, f.read v p.options) := by
                unfold handleFlag
                rw [hf, hf']
              have hread : f.read v p.options = .ok o := by
                have hgo := hh
                rw [hv, hval] at hgo
                exact congrArg Prod.snd hgo
              exact .inl ⟨v, o, hv, hread, ha, round_ok hsep hflag hh⟩
            · exact .inr ⟨ha, round_error hsep hflag hh⟩
  · refine .inl ⟨.inl (by rw [shape, if_neg hsep, if_neg hflag]), ?_, ?_⟩
    · rw [rolesFrom, if_neg hsep, if_neg hflag]
    · intro q h
      rw [parseFrom_cons hsep, parseStep, if_neg hflag] at h
      exact h

/-! ### The whole of the arguments -/

theorem zip_rolesFrom_separator (p : SpecParser) (rest : List String) :
    ("--" :: rest).zip (rolesFrom p none ("--" :: rest)) =
      ("--", .separator) :: rest.map fun a => (a, Role.command) := by
  have hmap : rest.zip (rest.map fun _ => Role.command) =
      (rest.map id).zip (rest.map fun _ => Role.command) := by rw [List.map_id]
  rw [rolesFrom, if_pos rfl, List.zip_cons_cons, hmap, List.zip_map']
  rfl

/-- Roles without a dropped token account for what the parser makes. -/
theorem accounts_of_kept {args : List String} (hkept : kept args = true) {p q : SpecParser}
    (h : parseFrom p false args = .ok q) :
    ∃ command, q.cmdParts = p.cmdParts ++ command ∧
      Accounts p.options (args.zip (rolesFrom p none args)) q.options command := by
  -- a flag with its value takes two tokens
  induction hn : args.length using Nat.strong_induction_on generalizing args p with
  | _ n ih =>
      cases args with
      | nil =>
          obtain rfl := Except.ok.inj h
          exact ⟨[], (List.append_nil _).symm, .nil _⟩
      | cons arg rest =>
          have hlen : rest.length < n := by rw [← hn]; exact Nat.lt_succ_self _
          by_cases hsep : arg = "--"
          · subst hsep
            rw [parseFrom, if_neg (by decide), if_pos rfl] at h
            obtain rfl := Except.ok.inj h
            refine ⟨rest, rfl, ?_⟩
            rw [zip_rolesFrom_separator]
            exact .separator _ _
          · have hcommand : kept rest = true →
                parseFrom (p.push arg) false rest = .ok q →
                ∃ command, q.cmdParts = p.cmdParts ++ command ∧ Accounts p.options
                  ((arg :: rest).zip (.command :: rolesFrom (p.push arg) none rest)) q.options
                  command := by
              intro hk hq
              obtain ⟨command, hparts, hacc⟩ := ih _ hlen hk hq rfl
              refine ⟨arg :: command, ?_, .command hacc⟩
              rw [hparts]
              simp [SpecParser.push]
            rcases round_cases p hsep rest with
              ⟨hs, hroles, hgo⟩ | ⟨hs, set, hf, hroles, hgo⟩ |
                ⟨f, hf, hset, hs, ⟨v, o, hv, hread, ha, hroles, hgo⟩ | ⟨ha, hroles, hgo⟩⟩
            · have hk : kept rest = true := by
                rcases hs with hs | hs <;> simpa only [kept, hs] using hkept
              rw [hroles]
              exact hcommand hk (hgo q h)
            · have hk : kept rest = true := by simpa only [kept, hs] using hkept
              obtain ⟨command, hparts, hacc⟩ := ih _ hlen hk (hgo q h) rfl
              refine ⟨command, hparts, ?_⟩
              rw [hroles]
              exact .switch hf hacc
            · obtain ⟨rest, rfl⟩ : ∃ l, rest = v :: l := List.head?_eq_some_iff.mp hv
              have hk : kept rest = true := by
                simp only [kept, hs, Bool.and_eq_true] at hkept
                exact hkept.2
              have hlen' : rest.length < n := Nat.lt_of_succ_lt hlen
              obtain ⟨command, hparts, hacc⟩ := ih _ hlen' hk (hgo q h) rfl
              refine ⟨command, hparts, ?_⟩
              rw [hroles]
              exact .option hf hset hread hacc
            · -- a flag that fails without dropping a token stands at the end
              cases rest with
              | nil =>
                  obtain rfl := Except.ok.inj (hgo q h)
                  rw [hroles]
                  exact ⟨[arg], rfl, .command (.nil _)⟩
              | cons v rest =>
                  simp only [kept, hs, Bool.and_eq_true] at hkept
                  rw [ha v rfl] at hkept
                  exact absurd hkept.1 Bool.false_ne_true

/-- A flag that meets a value it cannot read drops it. -/
theorem dropped_of_not_kept {args : List String} (hkept : kept args = false) {p q : SpecParser}
    (h : parseFrom p false args = .ok q) :
    ∃ a ∈ args.zip (rolesFrom p none args), a.2 = .dropped := by
  induction hn : args.length using Nat.strong_induction_on generalizing args p with
  | _ n ih =>
      cases args with
      | nil => cases hkept
      | cons arg rest =>
          have hlen : rest.length < n := by rw [← hn]; exact Nat.lt_succ_self _
          by_cases hsep : arg = "--"
          · have hs : shape arg = .separator := by rw [shape, if_pos hsep]
            simp only [kept, hs] at hkept
            cases hkept
          · rcases round_cases p hsep rest with
              ⟨hs, hroles, hgo⟩ | ⟨hs, set, -, hroles, hgo⟩ |
                ⟨f, -, -, hs, ⟨v, o, hv, -, ha, hroles, hgo⟩ | ⟨ha, hroles, hgo⟩⟩
            · have hk : kept rest = false := by
                rcases hs with hs | hs <;> simpa only [kept, hs] using hkept
              obtain ⟨a, ha, hrole⟩ := ih _ hlen hk (hgo q h) rfl
              rw [hroles]
              exact ⟨a, List.mem_cons_of_mem _ ha, hrole⟩
            · have hk : kept rest = false := by simpa only [kept, hs] using hkept
              obtain ⟨a, ha, hrole⟩ := ih _ hlen hk (hgo q h) rfl
              rw [hroles]
              exact ⟨a, List.mem_cons_of_mem _ ha, hrole⟩
            · obtain ⟨rest, rfl⟩ : ∃ l, rest = v :: l := List.head?_eq_some_iff.mp hv
              have hk : kept rest = false := by
                simp only [kept, hs, ha, Bool.true_and] at hkept
                exact hkept
              have hlen' : rest.length < n := Nat.lt_of_succ_lt hlen
              obtain ⟨a, ha, hrole⟩ := ih _ hlen' hk (hgo q h) rfl
              rw [hroles]
              exact ⟨a, List.mem_cons_of_mem _ (List.mem_cons_of_mem _ ha), hrole⟩
            · cases rest with
              | nil =>
                  simp only [kept, hs] at hkept
                  cases hkept
              | cons v rest =>
                  rw [hroles]
                  exact ⟨(v, .dropped), List.mem_cons_of_mem _ List.mem_cons_self, rfl⟩

/-- The roles of a successful parse account for all tokens if and only if no flag that reads a
number meets a value it cannot read. -/
theorem tokens_accounted_iff {args : List String} {q : SpecParser}
    (h : parseFrom {} false args = .ok q) :
    Accounts {} (args.zip (rolesFrom {} none args)) q.options q.cmdParts ↔ kept args = true := by
  constructor
  · intro hacc
    by_contra hk
    obtain ⟨a, ha, hrole⟩ := dropped_of_not_kept (Bool.eq_false_iff.mpr hk) h
    exact hacc.not_dropped a ha hrole
  · intro hk
    obtain ⟨command, hparts, hacc⟩ := accounts_of_kept hk h
    rw [hparts]
    exact hacc

/-- `unitpm start node --max-restarts abc` runs `node --max-restarts`. -/
theorem value_dropped :
    ¬ ∀ args q, parseFrom {} false args = .ok q →
      Accounts {} (args.zip (rolesFrom {} none args)) q.options q.cmdParts := by
  intro hall
  have hparse : parseFrom {} false ["node", "--max-restarts", "abc"] =
      .ok { cmdParts := ["node", "--max-restarts"] } := by decide +kernel
  have hroles : rolesFrom {} none ["node", "--max-restarts", "abc"] =
      [.command, .command, .dropped] := by decide +kernel
  have hacc := hall _ _ hparse
  rw [hroles] at hacc
  exact hacc.not_dropped ("abc", .dropped) (by decide) rfl

/-- `unitpm start node --max-restarts 3 --x` sets the number and runs `node --x`. -/
theorem value_accounted :
    ∃ q, parseFrom {} false ["node", "--max-restarts", "3", "--x"] = .ok q ∧
      (Accounts {} (["node", "--max-restarts", "3", "--x"].zip
        (rolesFrom {} none ["node", "--max-restarts", "3", "--x"])) q.options q.cmdParts) := by
  have hparse : parseFrom {} false ["node", "--max-restarts", "3", "--x"] =
      .ok { options := { maxRestarts := 3 }, cmdParts := ["node", "--x"] } := by decide +kernel
  exact ⟨_, hparse, (tokens_accounted_iff hparse).mpr (by decide +kernel)⟩

end Unitpm.Start

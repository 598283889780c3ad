import SelectiveReject.CommandLine.Client
import SelectiveReject.CommandLine.Server
import SelectiveReject.Proofs.Requests

/-!
# Reading the command lines

From left to right the arguments fall into items: a `--seed` with the argument that it takes, a call for
help, or a positional argument.  Reading is a fold over the items, and it ends at the first that does not
go through:

```
--seed n        the seed is n, if n is a number of 64 bits     refused otherwise
-h, --help      help
text            one more positional argument
```

So only the order of the positional arguments among themselves counts, and the last seed.  A `--seed` with
its number may be put between any two items and changes no more than the seed.
-/

namespace SelectiveReject

namespace Decimal

theorem readNat_le {greatest n : Nat} {text : String} (h : readNat greatest text = some n) :
    n ≤ greatest := by
  simp only [readNat, Option.ite_none_right_eq_some, Option.some.injEq] at h
  obtain ⟨⟨-, -, hle⟩, rfl⟩ := h
  exact hle

end Decimal

namespace CommandLine

/-- What an argument is for. -/
inductive Item where
  /-- `--seed`, and the argument after it, if there is one. -/
  | seed (value : Option String)
  | help
  | positional (text : String)
  deriving DecidableEq, Repr

/-- The arguments from left to right; `--seed` takes the next one whatever it is. -/
def items : List String → List Item
  | [] => []
  | "--seed" :: rest =>
      match rest with
      | [] => [.seed none]
      | value :: rest => .seed (some value) :: items rest
  | "-h" :: rest => .help :: items rest
  | "--help" :: rest => .help :: items rest
  | text :: rest => .positional text :: items rest

/-- The number of 64 bits that a text stands for. -/
def seedOf (text : String) : Option UInt64 := (Decimal.readNat (limit64 - 1) text).map UInt64.ofNat

namespace Item

def seed? : Item → Option UInt64
  | .seed value => value.bind seedOf
  | _ => none

def positional? : Item → Option String
  | .positional text => some text
  | _ => none

/-- Reading goes on behind the item. -/
def Passed : Item → Prop
  | .seed value => (value.bind seedOf).isSome
  | .help => False
  | .positional _ => True

instance : (i : Item) → Decidable i.Passed
  | .seed _ => inferInstanceAs (Decidable (_ = _))
  | .help => inferInstanceAs (Decidable False)
  | .positional _ => inferInstanceAs (Decidable True)

end Item

namespace Options

/-- Takes one item. -/
def take (o : Options) : Item → Reading Options
  | .seed none => .refused "--seed 값 필요"
  | .seed (some value) => (readSeed value).bind fun seed => .accepted { o with seed := some seed }
  | .help => .help
  | .positional text => .accepted { o with positional := o.positional ++ [text] }

/-- The options with more positional arguments and later seeds. -/
def after (o : Options) (is : List Item) : Options :=
  ⟨o.positional ++ is.filterMap Item.positional?, (is.filterMap Item.seed?).getLast?.or o.seed⟩

end Options

instance : LawfulMonad Reading :=
  LawfulMonad.mk' Reading (fun r => by cases r <;> rfl) (fun _ _ => rfl) fun r _ _ => by cases r <;> rfl

/-- Every `--seed` takes a number of 64 bits. -/
def SeedsValid (args : List String) : Prop :=
  ∀ value, .seed value ∈ items args → (value.bind seedOf).isSome

/-- A call for help is reached. -/
def HelpRead (args : List String) : Prop :=
  ∃ before after, items args = before ++ .help :: after ∧ ∀ i ∈ before, i.Passed

/-- The positional arguments, in their order. -/
def remaining (args : List String) : List String := (items args).filterMap Item.positional?

/-- The seeds, in their order. -/
def seeds (args : List String) : List UInt64 := (items args).filterMap Item.seed?

/-- The settings of a rate, written as a text, and a seed. -/
def Settles (config : Config) (rate : String) (seed : Option UInt64) : Prop :=
  Decimal.readReal rate = some config.rate ∧ (0.0 ≤ config.rate ∧ config.rate < 1.0) ∧
    config = { Config.lossy config.rate with seed := seed }

/-- What seven positional arguments and a seed ask a client for. -/
def ClientCommand.AskedBy (c : ClientCommand) (arguments : List String) (seed : Option UInt64) : Prop :=
  ∃ window buffer rate port,
    arguments = [c.name, c.destination, window, buffer, rate, c.host, port] ∧
    Decimal.readNat (limit32 - 1) window = some c.parameters.window.toNat ∧
    (1 ≤ c.parameters.window.toNat ∧ c.parameters.window.toNat ≤ 229) ∧
    Decimal.readNat (limit32 - 1) buffer = some c.parameters.buffer.toNat ∧
    (400 ≤ c.parameters.buffer.toNat ∧ c.parameters.buffer.toNat ≤ 1400) ∧
    Settles c.config rate seed ∧
    Decimal.readNat (limit16 - 1) port = some c.port.toNat

/-- What one or two positional arguments and a seed ask a server for. -/
def ServerCommand.AskedBy (c : ServerCommand) (arguments : List String) (seed : Option UInt64) : Prop :=
  (∃ rate, arguments = [rate] ∧ Settles c.config rate seed ∧ c.port = 0) ∨
    ∃ rate port, arguments = [rate, port] ∧ Settles c.config rate seed ∧
      Decimal.readNat (limit16 - 1) port = some c.port.toNat

/-- The command with another seed. -/
def ClientCommand.withSeed (seed : Option UInt64) (c : ClientCommand) : ClientCommand :=
  { c with config := { c.config with seed := seed } }

/-- The command with another seed. -/
def ServerCommand.withSeed (seed : Option UInt64) (c : ServerCommand) : ServerCommand :=
  { c with config := { c.config with seed := seed } }

variable {α β : Type} {o o' : Options} {is : List Item} {args before after : List String}

/-! ## Items -/

theorem items_seed (value : String) (rest : List String) :
    items ("--seed" :: value :: rest) = .seed (some value) :: items rest := by
  rw [items]

theorem items_positional {text : String} (hseed : text ≠ "--seed") (hshort : text ≠ "-h")
    (hlong : text ≠ "--help") (rest : List String) :
    items (text :: rest) = .positional text :: items rest := by
  rw [items] <;> assumption

/-- Unless a `--seed` at the end takes what follows, arguments can be read in two parts. -/
theorem items_append (h : .seed none ∉ items before) (after : List String) :
    items (before ++ after) = items before ++ items after := by
  fun_induction items before with
  | case1 => rfl
  | case2 => simp at h
  | case3 value rest ih =>
      have hrest := List.not_mem_of_not_mem_cons h
      rw [List.cons_append, List.cons_append, items_seed, ih hrest, List.cons_append]
  | case4 rest ih | case5 rest ih =>
      have hrest := List.not_mem_of_not_mem_cons h
      rw [List.cons_append, items, ih hrest, List.cons_append]
  | case6 text rest hseed hshort hlong ih =>
      have hrest := List.not_mem_of_not_mem_cons h
      rw [List.cons_append, items_positional hseed hshort hlong, ih hrest, List.cons_append]

/-- A `--seed` at the end takes the next one for its number. -/
theorem mem_items_of_open (h : .seed none ∈ items before) (after : List String) :
    .seed (some "--seed") ∈ items (before ++ "--seed" :: after) := by
  fun_induction items before with
  | case1 => cases h
  | case2 =>
      rw [List.singleton_append, items_seed]
      exact List.mem_cons_self
  | case3 value rest ih =>
      have hrest := List.mem_of_ne_of_mem (by simp) h
      rw [List.cons_append, List.cons_append, items_seed]
      exact List.mem_cons_of_mem _ (ih hrest)
  | case4 rest ih | case5 rest ih =>
      have hrest := List.mem_of_ne_of_mem (by simp) h
      rw [List.cons_append, items]
      exact List.mem_cons_of_mem _ (ih hrest)
  | case6 text rest hseed hshort hlong ih =>
      have hrest := List.mem_of_ne_of_mem (by simp) h
      rw [List.cons_append, items_positional hseed hshort hlong]
      exact List.mem_cons_of_mem _ (ih hrest)

/-- Either all items go through, or there is a first that does not. -/
theorem passed_or_first (is : List Item) :
    (∀ i ∈ is, i.Passed) ∨
      ∃ before i after, is = before ++ i :: after ∧ (∀ j ∈ before, j.Passed) ∧ ¬ i.Passed := by
  cases hfind : is.find? fun i => ¬ i.Passed with
  | none =>
      left
      intro i hi
      have hnot := List.find?_eq_none.mp hfind i hi
      simpa using hnot
  | some i =>
      right
      obtain ⟨hi, before, after, hsplit, hbefore⟩ := List.find?_eq_some_iff_append.mp hfind
      refine ⟨before, i, after, hsplit, fun j hj => ?_, of_decide_eq_true hi⟩
      simpa using hbefore j hj

/-! ## The fold -/

theorem scan_eq (o : Options) (args : List String) :
    scan o args = (items args).foldlM Options.take o := by
  fun_induction scan o args with
  | case1 o => rfl
  | case2 o => rfl
  | case3 o value rest seed hseed ih =>
      rw [items_seed, List.foldlM_cons, Options.take, hseed]
      exact ih
  | case4 o value rest _ hseed | case5 o value rest hseed =>
      rw [items_seed, List.foldlM_cons, Options.take, hseed]
      rfl
  | case6 o rest | case7 o rest =>
      rw [items]
      rfl
  | case8 o text rest hseed hshort hlong ih =>
      rw [items_positional hseed hshort hlong, List.foldlM_cons]
      exact ih

theorem readSeed_eq (value : String) : readSeed value = .ofArgument "시드" value (seedOf value) := rfl

theorem take_of_passed {i : Item} (h : i.Passed) : o.take i = .accepted (o.after [i]) := by
  cases i with
  | seed value =>
      obtain ⟨seed, hseed⟩ := Option.isSome_iff_exists.mp h
      obtain ⟨text, rfl, htext⟩ := Option.bind_eq_some_iff.mp hseed
      simp [Options.take, Options.after, readSeed_eq, htext, Reading.ofArgument, Reading.bind,
        Item.seed?, Item.positional?]
  | help => cases h
  | positional text => simp [Options.take, Options.after, Item.seed?, Item.positional?]

theorem take_of_not_passed {i : Item} (h : ¬ i.Passed) :
    (i = .help ∧ o.take i = .help) ∨ (i ≠ .help ∧ ∃ reason, o.take i = .refused reason) := by
  cases i with
  | seed value =>
      refine Or.inr ⟨nofun, ?_⟩
      cases value with
      | none => exact ⟨_, rfl⟩
      | some text =>
          have hnone : seedOf text = none := Option.not_isSome_iff_eq_none.mp h
          exact ⟨"유효한 " ++ "시드" ++ " 아님: " ++ text, by rw [Options.take, readSeed_eq, hnone]; rfl⟩
  | help => exact Or.inl ⟨rfl, rfl⟩
  | positional text => exact absurd trivial h

theorem after_append (o : Options) (is js : List Item) : (o.after is).after js = o.after (is ++ js) := by
  simp only [Options.after, List.filterMap_append, List.append_assoc, List.getLast?_append, Option.or_assoc]

theorem foldlM_of_passed (o : Options) (h : ∀ i ∈ is, i.Passed) :
    is.foldlM Options.take o = .accepted (o.after is) := by
  induction is generalizing o with
  | nil => simp [Options.after, pure]
  | cons i is ih =>
      obtain ⟨hi, his⟩ := List.forall_mem_cons.mp h
      rw [List.foldlM_cons, take_of_passed hi]
      exact (ih _ his).trans (congrArg _ (after_append o [i] is))

/-- Reading ends at the first item that does not go through. -/
theorem foldlM_of_not_passed (o : Options) {front : List Item} {i : Item} {rest : List Item}
    (hfront : ∀ j ∈ front, j.Passed) (h : ¬ i.Passed) :
    (i = .help ∧ (front ++ i :: rest).foldlM Options.take o = .help) ∨
      (i ≠ .help ∧ ∃ reason, (front ++ i :: rest).foldlM Options.take o = .refused reason) := by
  have hstep : (front ++ i :: rest).foldlM Options.take o =
      ((o.after front).take i).bind fun o => rest.foldlM Options.take o := by
    rw [List.foldlM_append, foldlM_of_passed o hfront]
    rfl
  rw [hstep]
  rcases @take_of_not_passed (o.after front) i h with ⟨hi, htake⟩ | ⟨hi, reason, htake⟩
  · exact Or.inl ⟨hi, congrArg (Reading.bind · _) htake⟩
  · exact Or.inr ⟨hi, reason, congrArg (Reading.bind · _) htake⟩

theorem scan_eq_accepted_iff :
    scan o args = .accepted o' ↔ (∀ i ∈ items args, i.Passed) ∧ o' = o.after (items args) := by
  rw [scan_eq]
  rcases passed_or_first (items args) with hall | ⟨front, i, rest, hsplit, hfront, hi⟩
  · rw [foldlM_of_passed o hall, Reading.accepted.injEq]
    exact ⟨fun h => ⟨hall, h.symm⟩, fun h => h.2.symm⟩
  · have hmem : i ∈ items args := hsplit ▸ List.mem_append_cons_self
    rw [hsplit] at hmem ⊢
    refine ⟨fun h => ?_, fun h => absurd (h.1 i hmem) hi⟩
    rcases @foldlM_of_not_passed o front i rest hfront hi with ⟨-, hhelp⟩ | ⟨-, reason, hrefused⟩
    · rw [hhelp] at h
      cases h
    · rw [hrefused] at h
      cases h

theorem scan_eq_help_iff : scan o args = .help ↔ HelpRead args := by
  rw [scan_eq]
  constructor
  · intro h
    rcases passed_or_first (items args) with hall | ⟨front, i, rest, hsplit, hfront, hi⟩
    · rw [foldlM_of_passed o hall] at h
      cases h
    · rcases @foldlM_of_not_passed o front i rest hfront hi with ⟨rfl, -⟩ | ⟨-, reason, hrefused⟩
      · exact ⟨front, rest, hsplit, hfront⟩
      · rw [hsplit, hrefused] at h
        cases h
  · rintro ⟨front, rest, hsplit, hfront⟩
    rw [hsplit]
    rcases @foldlM_of_not_passed o front .help rest hfront id with ⟨-, hhelp⟩ | ⟨hne, -⟩
    · exact hhelp
    · exact absurd rfl hne

theorem mem_of_helpRead (h : HelpRead args) : .help ∈ items args := by
  obtain ⟨front, rest, hsplit, -⟩ := h
  exact hsplit ▸ List.mem_append_cons_self

/-- Where no call for help is reached, all items go through if the seeds do. -/
theorem seedsValid_iff (h : ¬ HelpRead args) : SeedsValid args ↔ ∀ i ∈ items args, i.Passed := by
  refine ⟨fun hseeds => ?_, fun hall value hvalue => hall _ hvalue⟩
  rcases passed_or_first (items args) with hall | ⟨front, i, rest, hsplit, hfront, hi⟩
  · exact hall
  · have hmem : i ∈ items args := hsplit ▸ List.mem_append_cons_self
    cases i with
    | seed value => exact absurd (hseeds value hmem) hi
    | help => exact absurd ⟨front, rest, hsplit, hfront⟩ h
    | positional text => exact absurd trivial hi

/-- An earlier seed counts only if no other comes. -/
theorem foldlM_seed (is : List Item) : ∀ (o : Options) (seed : Option UInt64),
    is.foldlM Options.take { o with seed := seed } =
      is.foldlM Options.take o >>= fun o' =>
        .accepted { o' with seed := (is.filterMap Item.seed?).getLast?.or seed } := by
  induction is with
  | nil =>
      intro o seed
      rfl
  | cons i is ih =>
      intro o seed
      rw [List.foldlM_cons, List.foldlM_cons, bind_assoc]
      cases i with
      | help => rfl
      | positional text => exact ih { o with positional := o.positional ++ [text] } seed
      | seed value =>
          cases value with
          | none => rfl
          | some text =>
              rw [Options.take, Options.take, readSeed_eq]
              cases hseed : seedOf text with
              | none => rfl
              | some n =>
                  have hlast : (n :: is.filterMap Item.seed?).getLast?.or seed =
                      (is.filterMap Item.seed?).getLast?.or (some n) := by
                    rw [List.getLast?_cons]
                    cases (is.filterMap Item.seed?).getLast? <;> rfl
                  have hnumber : (Item.seed (some text)).seed? = some n := hseed
                  rw [List.filterMap_cons_some hnumber, hlast]
                  exact ih { o with seed := some n } (some n)

theorem scan_insert {value : String} {seed : UInt64} (hclosed : .seed none ∉ items before)
    (hseed : seedOf value = some seed) (o : Options) (after : List String) :
    scan o (before ++ "--seed" :: value :: after) =
      scan o (before ++ after) >>= fun o' =>
        .accepted { o' with seed := (seeds after).getLast?.or (some seed) } := by
  rw [scan_eq, scan_eq, items_append hclosed, items_append hclosed, items_seed, List.foldlM_append,
    List.foldlM_append, bind_assoc]
  congr 1
  funext o₁
  rw [List.foldlM_cons, Options.take, readSeed_eq, hseed]
  exact foldlM_seed (items after) o₁ (some seed)

/-! ## Commands -/

section Command

variable {f : Options → Reading α} {v : α}

theorem command_accepted_iff : (scan {} args).bind f = .accepted v ↔
    (∀ i ∈ items args, i.Passed) ∧ f ⟨remaining args, (seeds args).getLast?⟩ = .accepted v := by
  have hafter : Options.after {} (items args) = ⟨remaining args, (seeds args).getLast?⟩ := by
    simp only [Options.after, List.nil_append, Option.or_none]
    rfl
  constructor
  · intro h
    cases hscan : scan {} args with
    | accepted o =>
        obtain ⟨hall, rfl⟩ := scan_eq_accepted_iff.mp hscan
        rw [hscan, hafter] at h
        exact ⟨hall, h⟩
    | refused reason =>
        rw [hscan] at h
        cases h
    | help =>
        rw [hscan] at h
        cases h
  · rintro ⟨hall, h⟩
    rw [scan_eq_accepted_iff.mpr ⟨hall, rfl⟩, hafter]
    exact h

theorem command_help_iff (hf : ∀ o, f o ≠ .help) : (scan {} args).bind f = .help ↔ HelpRead args := by
  rw [← @scan_eq_help_iff {}]
  cases scan {} args with
  | accepted o => exact ⟨fun h => absurd h (hf o), nofun⟩
  | refused reason => exact ⟨nofun, nofun⟩
  | help => exact ⟨fun _ => rfl, fun _ => rfl⟩

theorem command_insert {g : Option UInt64 → α → α}
    (hf : ∀ o seed, f { o with seed := seed } = f o >>= fun v => .accepted (g seed v))
    {value : String} {seed : UInt64} (hclosed : .seed none ∉ items before)
    (hseed : seedOf value = some seed) (after : List String) :
    (scan {} (before ++ "--seed" :: value :: after)).bind f =
      (scan {} (before ++ after)).bind f >>= fun v =>
        .accepted (g ((seeds after).getLast?.or (some seed)) v) := by
  rw [scan_insert hclosed hseed]
  cases scan {} (before ++ after) with
  | accepted o => exact hf o _
  | refused reason => rfl
  | help => rfl

/-- A `--seed` at the end has no number, and takes no number from another one. -/
theorem command_open (hopen : .seed none ∈ items before) (after : List String) :
    (scan {} before).bind f ≠ .accepted v ∧
      (scan {} (before ++ "--seed" :: after)).bind f ≠ .accepted v := by
  refine ⟨fun h => ?_, fun h => ?_⟩
  · have hpassed := (command_accepted_iff.mp h).1 _ hopen
    cases hpassed
  · have hpassed := (command_accepted_iff.mp h).1 _ (mem_items_of_open hopen after)
    exact absurd hpassed (by decide)

end Command

/-! ## What the positional arguments say -/

theorem map_ofNat_eq_some_iff {number : Option Nat} {ofNat : Nat → α} {toNat : α → Nat} {x : α}
    (hfits : ∀ n, number = some n → toNat (ofNat n) = n) (hback : ofNat (toNat x) = x) :
    number.map ofNat = some x ↔ number = some (toNat x) := by
  rw [Option.map_eq_some_iff]
  constructor
  · rintro ⟨n, hn, rfl⟩
    rw [hn, hfits n hn]
  · intro hn
    exact ⟨_, hn, hback⟩

theorem ofArgument_eq_accepted_iff {what text : String} {number : Option α} {x : α} :
    .ofArgument what text number = Reading.accepted x ↔ number = some x := by
  cases number <;> simp [Reading.ofArgument]

theorem readSize_eq_accepted_iff {what text : String} {size : UInt32} :
    readSize what text = .accepted size ↔ Decimal.readNat (limit32 - 1) text = some size.toNat := by
  rw [readSize, ofArgument_eq_accepted_iff]
  refine map_ofNat_eq_some_iff (fun n hn => UInt32.toNat_ofNat_of_lt' ?_) UInt32.ofNat_toNat
  exact Nat.lt_of_le_pred (by decide) (Decimal.readNat_le hn)

theorem readPort_eq_accepted_iff {text : String} {port : UInt16} :
    readPort text = .accepted port ↔ Decimal.readNat (limit16 - 1) text = some port.toNat := by
  rw [readPort, ofArgument_eq_accepted_iff]
  refine map_ofNat_eq_some_iff (fun n hn => UInt16.toNat_ofNat_of_lt' ?_) UInt16.ofNat_toNat
  exact Nat.lt_of_le_pred (by decide) (Decimal.readNat_le hn)

theorem ofCheck_eq_accepted_iff {x y : α} {check : Except Error Unit} :
    .ofCheck x check = Reading.accepted y ↔ check = .ok () ∧ x = y := by
  cases check <;> simp [Reading.ofCheck]

theorem check_config_iff {config : Config} :
    config.check = .ok () ↔ 0.0 ≤ config.rate ∧ config.rate < 1.0 := by
  unfold Config.check
  split
  · exact iff_of_true rfl ‹_›
  · exact iff_of_false nofun ‹_›

theorem bind_eq_accepted_iff {r : Reading α} {f : α → Reading β} {y : β} :
    r >>= f = .accepted y ↔ ∃ x, r = .accepted x ∧ f x = .accepted y := by
  cases r <;> simp [bind, Reading.bind]

theorem bind_eq_help_iff {r : Reading α} {f : α → Reading β} :
    r >>= f = .help ↔ r = .help ∨ ∃ x, r = .accepted x ∧ f x = .help := by
  cases r <;> simp [bind, Reading.bind]

theorem ofArgument_ne_help (what text : String) (number : Option α) :
    .ofArgument what text number ≠ Reading.help := by
  cases number <;> nofun

theorem ofCheck_ne_help (x : α) (check : Except Error Unit) : .ofCheck x check ≠ Reading.help := by
  cases check <;> nofun

theorem readRate_readConfig_iff {rate : String} {seed : Option UInt64} {config : Config} :
    (∃ r, readRate rate = .accepted r ∧ readConfig r seed = .accepted config) ↔
      Settles config rate seed := by
  simp only [readRate, readConfig, ofArgument_eq_accepted_iff, ofCheck_eq_accepted_iff,
    check_config_iff]
  constructor
  · rintro ⟨r, hr, hrange, rfl⟩
    exact ⟨hr, hrange, rfl⟩
  · rintro ⟨hr, hrange, hconfig⟩
    exact ⟨config.rate, hr, hrange, hconfig.symm⟩

theorem readConfig_seed (rate : Float) (seed seed' : Option UInt64) :
    readConfig rate seed' =
      readConfig rate seed >>= fun config => .accepted { config with seed := seed' } := by
  have hcheck : ∀ seed, Config.check { Config.lossy rate with seed := seed } =
      (Config.lossy rate).check := fun _ => rfl
  simp only [readConfig, hcheck]
  cases (Config.lossy rate).check <;> rfl

namespace ClientCommand

variable {c : ClientCommand}

theorem ofOptions_eq_accepted_iff : ofOptions o = .accepted c ↔ c.AskedBy o.positional o.seed := by
  unfold ofOptions
  split
  · rename_i name destination window buffer rate host port hpositional
    rw [hpositional]
    simp only [bind_eq_accepted_iff, readSize_eq_accepted_iff, readPort_eq_accepted_iff,
      ofCheck_eq_accepted_iff, Parameters.check_eq_ok_iff, Reading.accepted.injEq]
    constructor
    · rintro ⟨w, hw, b, hb, parameters, ⟨⟨hw₁, hw₂, hb₁, hb₂⟩, rfl⟩, r, hr, config, hconfig, p, hp, rfl⟩
      exact ⟨window, buffer, rate, port, rfl, hw, ⟨hw₁, hw₂⟩, hb, ⟨hb₁, hb₂⟩,
        readRate_readConfig_iff.mp ⟨r, hr, hconfig⟩, hp⟩
    · rintro ⟨window, buffer, rate, port, hsame, hw, hwrange, hb, hbrange, hconfig, hp⟩
      cases hsame
      obtain ⟨r, hr, hread⟩ := readRate_readConfig_iff.mpr hconfig
      exact ⟨_, hw, _, hb, _, ⟨⟨hwrange.1, hwrange.2, hbrange.1, hbrange.2⟩, rfl⟩, r, hr, _, hread,
        _, hp, rfl⟩
  · rename_i hother
    refine iff_of_false nofun ?_
    rintro ⟨window, buffer, rate, port, hsame, -⟩
    exact hother _ _ _ _ _ _ _ hsame

theorem ofOptions_seed (o : Options) (seed : Option UInt64) :
    ofOptions { o with seed := seed } = ofOptions o >>= fun c => .accepted (c.withSeed seed) := by
  simp only [ofOptions]
  split
  · simp only [bind_assoc, readConfig_seed _ o.seed seed]
    rfl
  · rfl

theorem ofOptions_ne_help (o : Options) : ofOptions o ≠ .help := by
  unfold ofOptions
  split
  · simp [bind_eq_help_iff, readSize, readRate, readConfig, readPort, ofArgument_ne_help, ofCheck_ne_help]
  · nofun

end ClientCommand

namespace ServerCommand

variable {c : ServerCommand} {rate : String} {seed : Option UInt64}

theorem ofTexts_none_eq_accepted_iff :
    ofTexts rate none seed = .accepted c ↔ Settles c.config rate seed ∧ c.port = 0 := by
  simp only [ofTexts, bind_eq_accepted_iff, Reading.accepted.injEq]
  constructor
  · rintro ⟨r, hr, p, rfl, config, hconfig, rfl⟩
    exact ⟨readRate_readConfig_iff.mp ⟨r, hr, hconfig⟩, rfl⟩
  · rintro ⟨hconfig, hport⟩
    obtain ⟨r, hr, hread⟩ := readRate_readConfig_iff.mpr hconfig
    refine ⟨r, hr, 0, rfl, c.config, hread, ?_⟩
    rw [← hport]

theorem ofTexts_some_eq_accepted_iff {port : String} :
    ofTexts rate (some port) seed = .accepted c ↔
      Settles c.config rate seed ∧ Decimal.readNat (limit16 - 1) port = some c.port.toNat := by
  simp only [ofTexts, bind_eq_accepted_iff, readPort_eq_accepted_iff, Reading.accepted.injEq]
  constructor
  · rintro ⟨r, hr, p, hp, config, hconfig, rfl⟩
    exact ⟨readRate_readConfig_iff.mp ⟨r, hr, hconfig⟩, hp⟩
  · rintro ⟨hconfig, hp⟩
    obtain ⟨r, hr, hread⟩ := readRate_readConfig_iff.mpr hconfig
    exact ⟨r, hr, c.port, hp, c.config, hread, rfl⟩

theorem ofTexts_seed (rate : String) (port : Option String) (seed seed' : Option UInt64) :
    ofTexts rate port seed' = ofTexts rate port seed >>= fun c => .accepted (c.withSeed seed') := by
  cases port <;>
    simp only [ofTexts, bind_assoc, readConfig_seed _ seed seed'] <;>
    rfl

theorem ofTexts_ne_help (rate : String) (port : Option String) (seed : Option UInt64) :
    ofTexts rate port seed ≠ .help := by
  cases port <;>
    simp [ofTexts, bind_eq_help_iff, readRate, readConfig, readPort, ofArgument_ne_help, ofCheck_ne_help]

theorem ofOptions_eq_accepted_iff : ofOptions o = .accepted c ↔ c.AskedBy o.positional o.seed := by
  unfold ofOptions
  split
  · rename_i rate hpositional
    simp [AskedBy, hpositional, ofTexts_none_eq_accepted_iff]
  · rename_i rate port hpositional
    simp [AskedBy, hpositional, ofTexts_some_eq_accepted_iff, and_assoc]
  · rename_i hone htwo
    refine iff_of_false nofun ?_
    rintro (⟨rate, hsame, -⟩ | ⟨rate, port, hsame, -⟩)
    · exact hone rate hsame
    · exact htwo rate port hsame

theorem ofOptions_seed (o : Options) (seed : Option UInt64) :
    ofOptions { o with seed := seed } = ofOptions o >>= fun c => .accepted (c.withSeed seed) := by
  simp only [ofOptions]
  split
  · exact ofTexts_seed _ none o.seed seed
  · exact ofTexts_seed _ (some _) o.seed seed
  · rfl

theorem ofOptions_ne_help (o : Options) : ofOptions o ≠ .help := by
  unfold ofOptions
  split
  · exact ofTexts_ne_help _ none o.seed
  · exact ofTexts_ne_help _ (some _) o.seed
  · nofun

end ServerCommand

/-- How arguments become a command: `askedBy` is what positional arguments and a seed ask for, `withSeed` puts
another seed into a command. -/
structure ReadsAs (read : List String → Reading α) (askedBy : α → List String → Option UInt64 → Prop)
    (withSeed : Option UInt64 → α → α) : Prop where
  help : ∀ args, read args = .help ↔ HelpRead args
  /-- The command is what the positional arguments say in their order, with the last seed. -/
  accepted : ∀ args, ¬ HelpRead args → ∀ v,
    read args = .accepted v ↔ SeedsValid args ∧ askedBy v (remaining args) (seeds args).getLast?
  /-- One more seed changes no more than the seed, and that only if no later one is given. -/
  inserted : ∀ before after value seed, .seed none ∉ items before → seedOf value = some seed →
    read (before ++ "--seed" :: value :: after) =
      read (before ++ after) >>= fun v => .accepted (withSeed ((seeds after).getLast?.or (some seed)) v)
  /-- Behind a `--seed` without its number nothing helps, as that takes the new `--seed` for it. -/
  unfinished : ∀ before after, .seed none ∈ items before → ∀ v,
    read before ≠ .accepted v ∧ read (before ++ "--seed" :: after) ≠ .accepted v

theorem readsAs_of {f : Options → Reading α} {askedBy : α → List String → Option UInt64 → Prop}
    {withSeed : Option UInt64 → α → α}
    (hasked : ∀ {o v}, f o = .accepted v ↔ askedBy v o.positional o.seed)
    (hseed : ∀ o seed, f { o with seed := seed } = f o >>= fun v => .accepted (withSeed seed v))
    (hhelp : ∀ o, f o ≠ .help) : ReadsAs (fun args => (scan {} args).bind f) askedBy withSeed where
  help _ := command_help_iff hhelp
  accepted args hnone v := by
    rw [command_accepted_iff, seedsValid_iff hnone, hasked]
  inserted _ after _ _ hclosed hvalue := command_insert hseed hclosed hvalue after
  unfinished _ after hopen _ := command_open hopen after

/-- What the client and the server read their arguments as. -/
theorem command_lines_read :
    ReadsAs ClientCommand.read ClientCommand.AskedBy ClientCommand.withSeed ∧
      ReadsAs ServerCommand.read ServerCommand.AskedBy ServerCommand.withSeed :=
  ⟨readsAs_of ClientCommand.ofOptions_eq_accepted_iff ClientCommand.ofOptions_seed
      ClientCommand.ofOptions_ne_help,
    readsAs_of ServerCommand.ofOptions_eq_accepted_iff ServerCommand.ofOptions_seed
      ServerCommand.ofOptions_ne_help⟩

/-- A seed between the arguments of a client, and two around the rate of a server, of which the later
counts. -/
theorem seeds_between_arguments :
    (∃ c, ClientCommand.read ["a", "b", "--seed", "7", "16", "500", "0.5", "host", "9000"] = .accepted c ∧
      c.config.seed = some 7 ∧ c.parameters = ⟨16, 500⟩ ∧ c.port = 9000) ∧
    (∃ c, ServerCommand.read ["--seed", "1", "0.5", "--seed", "2"] = .accepted c ∧
      c.config.seed = some 2 ∧ c.port = 0) := by
  have hrate : Decimal.readReal "0.5" = some 0.5 := by decide +kernel
  have hrange : (0.0 : Float) ≤ 0.5 ∧ (0.5 : Float) < 1.0 := by decide
  constructor
  · let c : ClientCommand := ⟨Config.lossy 0.5, "a", "b", ⟨16, 500⟩, "host", 9000⟩
    have hasked : c.AskedBy ["a", "b", "16", "500", "0.5", "host", "9000"] none :=
      ⟨"16", "500", "0.5", "9000", rfl, by decide, by decide, by decide, by decide,
        ⟨hrate, hrange, rfl⟩, by decide⟩
    have hnone : ¬ HelpRead ["a", "b", "16", "500", "0.5", "host", "9000"] := fun h =>
      absurd (mem_of_helpRead h) (by decide)
    have hread := (command_lines_read.1.accepted _ hnone c).mpr
      ⟨(seedsValid_iff hnone).mpr (by decide), hasked⟩
    have hinserted := command_lines_read.1.inserted ["a", "b"] ["16", "500", "0.5", "host", "9000"]
      "7" 7 (by decide) (by decide)
    exact ⟨c.withSeed (some 7), hinserted.trans (bind_eq_accepted_iff.mpr ⟨c, hread, rfl⟩), rfl, rfl, rfl⟩
  · let c : ServerCommand := ⟨{ Config.lossy 0.5 with seed := some 2 }, 0⟩
    have hasked : c.AskedBy ["0.5"] (some 2) := Or.inl ⟨"0.5", rfl, ⟨hrate, hrange, rfl⟩, rfl⟩
    have hnone : ¬ HelpRead ["--seed", "1", "0.5", "--seed", "2"] := fun h =>
      absurd (mem_of_helpRead h) (by decide)
    have hread := (command_lines_read.2.accepted _ hnone c).mpr
      ⟨(seedsValid_iff hnone).mpr (by decide), hasked⟩
    exact ⟨c, hread, rfl, rfl⟩

end CommandLine

end SelectiveReject

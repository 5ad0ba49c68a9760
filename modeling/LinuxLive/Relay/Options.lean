import Mathlib.Data.List.TakeWhile
import LinuxLive.Lib.Numbers
import LinuxLive.Relay.Pruning

/-!
# The command line of the relay

The argument loop of `main` and what `--kind-ttl` options do to the TTLs that the
constructor completes.
-/

namespace LinuxLive.Relay

/-- The locals `config` and `port` of `main`. -/
structure Options where
  config : RelayConfig := { }
  port : UInt16 := 8080

/-- What the loop leads to; `main` catches no exception. -/
inductive Outcome where
  | start (options : Options)
  | usage
  | terminated

namespace Options

/-- `spec.substr(0, colon)` -/
def beforeColon (spec : Bytes) : Bytes := spec.takeWhile fun b => decide (b ≠ 58)

/-- `config.kind_ttl[kind] = ttl`, for a text with a colon. -/
def setKindTtl (spec : Bytes) (o : Options) : Except NumberError Options :=
  match spec.dropWhile fun b => decide (b ≠ 58) with
  | [] => .ok o
  | _ :: seconds => do
      let kind ← stoi (beforeColon spec)
      let ttl ← stoi seconds
      return { o with config :=
        { o.config with kindTtl := o.config.kindTtl.insert (UInt16.ofInt kind) ttl } }

/-- The branches that convert the value to a number and store it in one field. -/
def setNumber {α : Type} (convert : Bytes → Except NumberError α) (store : α → Options → Options)
    (value : Bytes) (o : Options) : Except NumberError Options :=
  (convert value).map fun n => store n o

/-- The branch for an option with a value; none for any other argument. -/
def branch (arg : Bytes) : Option (Bytes → Options → Except NumberError Options) :=
  if arg = lit "-p" ∨ arg = lit "--port" then
    some (setNumber stoi fun n o => { o with port := UInt16.ofInt n })
  else if arg = lit "-r" ∨ arg = lit "--rate-limit" then
    some (setNumber stoi fun n o => { o with config.rateLimitEvents := n })
  else if arg = lit "-w" ∨ arg = lit "--window" then
    some (setNumber stoi fun n o => { o with config.rateLimitWindowSeconds := n })
  else if arg = lit "-m" ∨ arg = lit "--max-events" then
    some (setNumber stoul fun n o => { o with config.maxTotalEvents := n })
  else if arg = lit "-k" ∨ arg = lit "--max-per-pubkey" then
    some (setNumber stoul fun n o => { o with config.maxEventsPerPubkey := n })
  else if arg = lit "-s" ∨ arg = lit "--max-per-kind" then
    some (setNumber stoul fun n o => { o with config.maxEventsPerKind := n })
  else if arg = lit "-z" ∨ arg = lit "--max-size" then
    some (setNumber stoul fun n o => { o with config.maxEventSizeBytes := n })
  else if arg = lit "-t" ∨ arg = lit "--ttl" then
    some (setNumber stoi fun n o => { o with config.eventTtlSeconds := n })
  else if arg = lit "--kind-ttl" then some setKindTtl
  else if arg = lit "--ban" then
    some fun value o =>
      .ok { o with config.bannedPubkeys := insert value o.config.bannedPubkeys }
  else none

def isHelp (arg : Bytes) : Bool := arg = lit "-h" || arg = lit "--help"

/-- The loop of `main` over the arguments behind the program's name.  An option that takes a
value and is the last argument has no branch. -/
def main (o : Options) : List Bytes → Outcome
  | [] => .start o
  | [arg] => if isHelp arg then .usage else .start o
  | arg :: value :: rest =>
      match branch arg with
      | some set =>
          match set value o with
          | .ok o' => main o' rest
          | .error _ => .terminated
      | none => if isHelp arg then .usage else main o (value :: rest)

/-! ## Options other than `--kind-ttl` -/

def withTable (table : Finmap fun _ : UInt16 => Int) (o : Options) : Options :=
  { o with config.kindTtl := table }

variable {o : Options} {arg : Bytes} {table : Finmap fun _ : UInt16 => Int}

/-- A branch that leaves the TTL table alone and keeps TTLs in the range of `int`. -/
structure SetsField (set : Bytes → Options → Except NumberError Options) : Prop where
  withTable : ∀ value o table, set value (withTable table o) = (set value o).map (withTable table)
  intTtls : ∀ value o o', set value o = .ok o' → IntTtls o.config → IntTtls o'.config

theorem setsField_number {α : Type} (convert : Bytes → Except NumberError α)
    (store : α → Options → Options)
    (htable : ∀ n o table, store n (withTable table o) = withTable table (store n o))
    (hint : ∀ value n o, convert value = .ok n → IntTtls o.config → IntTtls (store n o).config) :
    SetsField (setNumber convert store) where
  withTable := by
    intro value o table
    unfold setNumber
    cases convert value with
    | error e => rfl
    | ok n => exact congrArg Except.ok (htable n o table)
  intTtls := by
    intro value o o' hset h
    unfold setNumber at hset
    cases hn : convert value with
    | error e => simp [hn, Except.map] at hset
    | ok n =>
        simp only [hn, Except.map, Except.ok.injEq] at hset
        exact hset ▸ hint value n o hn h

theorem setsField_other {α : Type} (convert : Bytes → Except NumberError α)
    (store : α → Options → Options)
    (htable : ∀ n o table, store n (withTable table o) = withTable table (store n o))
    (hsame : ∀ n o, (store n o).config.eventTtlSeconds = o.config.eventTtlSeconds ∧
      (store n o).config.kindTtl = o.config.kindTtl) : SetsField (setNumber convert store) := by
  refine setsField_number convert store htable ?_
  intro value n o _ h
  obtain ⟨hevent, hkind⟩ := hsame n o
  exact ⟨hevent ▸ h.event, hkind ▸ h.kind⟩

theorem setsField_ban : SetsField fun value o =>
    .ok { o with config.bannedPubkeys := insert value o.config.bannedPubkeys } where
  withTable := fun _ _ _ => rfl
  intTtls := by
    intro value o o' hset h
    cases hset
    exact ⟨h.event, h.kind⟩

theorem of_ite_eq_some {α : Type} {c : Prop} [Decidable c] {a b : α} {x : Option α}
    (h : (if c then some a else x) = some b) : (c ∧ a = b) ∨ x = some b := by
  split at h
  · exact .inl ⟨‹c›, Option.some.inj h⟩
  · exact .inr h

theorem branch_cases {set : Bytes → Options → Except NumberError Options}
    (h : branch arg = some set) : (arg = lit "--kind-ttl" ∧ set = setKindTtl) ∨ SetsField set := by
  -- One alternative for each condition of the chain, in its order.
  rcases of_ite_eq_some h with ⟨_, rfl⟩ | h
  · exact .inr (setsField_other _ _ (fun _ _ _ => rfl) fun _ _ => ⟨rfl, rfl⟩)
  rcases of_ite_eq_some h with ⟨_, rfl⟩ | h
  · exact .inr (setsField_other _ _ (fun _ _ _ => rfl) fun _ _ => ⟨rfl, rfl⟩)
  rcases of_ite_eq_some h with ⟨_, rfl⟩ | h
  · exact .inr (setsField_other _ _ (fun _ _ _ => rfl) fun _ _ => ⟨rfl, rfl⟩)
  rcases of_ite_eq_some h with ⟨_, rfl⟩ | h
  · exact .inr (setsField_other _ _ (fun _ _ _ => rfl) fun _ _ => ⟨rfl, rfl⟩)
  rcases of_ite_eq_some h with ⟨_, rfl⟩ | h
  · exact .inr (setsField_other _ _ (fun _ _ _ => rfl) fun _ _ => ⟨rfl, rfl⟩)
  rcases of_ite_eq_some h with ⟨_, rfl⟩ | h
  · exact .inr (setsField_other _ _ (fun _ _ _ => rfl) fun _ _ => ⟨rfl, rfl⟩)
  rcases of_ite_eq_some h with ⟨_, rfl⟩ | h
  · exact .inr (setsField_other _ _ (fun _ _ _ => rfl) fun _ _ => ⟨rfl, rfl⟩)
  rcases of_ite_eq_some h with ⟨_, rfl⟩ | h
  · exact .inr (setsField_number _ _ (fun _ _ _ => rfl)
      fun _ _ _ hn h => ⟨(stoi_range hn).2, h.kind⟩)
  rcases of_ite_eq_some h with ⟨harg, rfl⟩ | h
  · exact .inl ⟨harg, rfl⟩
  rcases of_ite_eq_some h with ⟨_, rfl⟩ | h
  · exact .inr setsField_ban
  · cases h

theorem branch_withTable {set : Bytes → Options → Except NumberError Options}
    (hset : branch arg = some set) (hother : arg ≠ lit "--kind-ttl") (value : Bytes) (o : Options)
    (table : Finmap fun _ : UInt16 => Int) :
    set value (o.withTable table) = (set value o).map (withTable table) := by
  rcases branch_cases hset with ⟨harg, _⟩ | hfield
  · exact absurd harg hother
  · exact hfield.withTable value o table

end Options

def Outcome.withTable (table : Finmap fun _ : UInt16 => Int) : Outcome → Outcome
  | .start o => .start (o.withTable table)
  | .usage => .usage
  | .terminated => .terminated

namespace Options

variable {o : Options} {args specs : List Bytes} {table : Finmap fun _ : UInt16 => Int}

/-- Arguments without `--kind-ttl` leave the TTL table as it is and do not look at it. -/
theorem main_withTable (hother : lit "--kind-ttl" ∉ args) (o : Options)
    (table : Finmap fun _ : UInt16 => Int) :
    main (o.withTable table) args = (main o args).withTable table := by
  fun_induction main o args with
  | case1 o => rfl
  | case2 o arg hhelp => simp [main, hhelp, Outcome.withTable]
  | case3 o arg hhelp => simp [main, hhelp, Outcome.withTable]
  | case4 o arg value rest set hset o' hok ih =>
      rw [List.mem_cons, List.mem_cons, not_or, not_or] at hother
      have hstep := branch_withTable hset (Ne.symm hother.1) value o table
      rw [hok] at hstep
      simp only [main, hset, hstep, Except.map, ih hother.2.2]
  | case5 o arg value rest set hset e herror =>
      rw [List.mem_cons, not_or] at hother
      have hstep := branch_withTable hset (Ne.symm hother.1) value o table
      rw [herror] at hstep
      simp only [main, hset, hstep, Except.map, Outcome.withTable]
  | case6 o arg value rest hnone hhelp => simp [main, hnone, hhelp, Outcome.withTable]
  | case7 o arg value rest hnone hhelp ih =>
      rw [List.mem_cons, not_or] at hother
      simp only [main, hnone, hhelp, ih hother.2, if_false, Bool.false_eq_true]

/-! ## `--kind-ttl` -/

def kindTtlArgs (specs : List Bytes) : List Bytes :=
  specs.flatMap fun spec => [lit "--kind-ttl", spec]

def Names (spec : Bytes) (kind : UInt16) : Prop :=
  58 ∈ spec ∧ ∃ n, stoi (beforeColon spec) = .ok n ∧ UInt16.ofInt n = kind

theorem branch_kindTtl : branch (lit "--kind-ttl") = some setKindTtl := by
  simp [branch]

theorem dropWhile_colon_eq_nil {spec : Bytes} :
    spec.dropWhile (fun b => decide (b ≠ 58)) = [] ↔ 58 ∉ spec := by
  rw [List.dropWhile_eq_nil_iff]
  simp only [decide_eq_true_eq]
  constructor
  · exact fun h hmem => h 58 hmem rfl
  · exact fun h b hb heq => h (heq ▸ hb)

theorem setKindTtl_spec {spec : Bytes} {o' : Options} (h : setKindTtl spec o = .ok o') :
    58 ∉ spec ∧ o' = o ∨
      ∃ kind ttl, Names spec kind ∧ ttl < 2 ^ 31 ∧
        o' = o.withTable (o.config.kindTtl.insert kind ttl) := by
  unfold setKindTtl at h
  cases hcolon : spec.dropWhile fun b => decide (b ≠ 58) with
  | nil =>
      rw [hcolon] at h
      cases h
      exact Or.inl ⟨dropWhile_colon_eq_nil.mp hcolon, rfl⟩
  | cons colon seconds =>
      rw [hcolon] at h
      have hmem : 58 ∈ spec := by
        by_contra hnot
        rw [dropWhile_colon_eq_nil.mpr hnot] at hcolon
        cases hcolon
      cases hkind : stoi (beforeColon spec) with
      | error e => simp [hkind, bind, Except.bind] at h
      | ok kind =>
          cases httl : stoi seconds with
          | error e => simp [hkind, httl, bind, Except.bind] at h
          | ok ttl =>
              simp only [hkind, httl, bind, Except.bind, pure, Except.pure, Except.ok.injEq] at h
              exact Or.inr ⟨UInt16.ofInt kind, ttl, ⟨hmem, kind, hkind, rfl⟩, (stoi_range httl).2, h.symm⟩

theorem insert_ne_empty {kind : UInt16} {ttl : Int} : table.insert kind ttl ≠ ∅ := by
  intro h
  have hlookup : (table.insert kind ttl).lookup kind = some ttl := Finmap.lookup_insert _
  rw [h, Finmap.lookup_empty] at hlookup
  cases hlookup

/-- What a list of `--kind-ttl` options in front of other arguments does to the table. -/
theorem main_kindTtlArgs {options : Options}
    (h : main o (kindTtlArgs specs ++ args) = .start options) :
    ∃ table, main (o.withTable table) args = .start options ∧
      (∀ kind, (∀ spec ∈ specs, ¬ Names spec kind) →
        table.lookup kind = o.config.kindTtl.lookup kind) ∧
      (table = ∅ ↔ o.config.kindTtl = ∅ ∧ ∀ spec ∈ specs, 58 ∉ spec) := by
  induction specs generalizing o with
  | nil => exact ⟨o.config.kindTtl, h, fun _ _ => rfl, by simp⟩
  | cons spec specs ih =>
      have hcons : kindTtlArgs (spec :: specs) ++ args =
          lit "--kind-ttl" :: spec :: (kindTtlArgs specs ++ args) := rfl
      rw [hcons, main, branch_kindTtl] at h
      cases hset : setKindTtl spec o with
      | error e => simp [hset] at h
      | ok o' =>
          simp only [hset] at h
          obtain ⟨table, hmain, hlookup, hempty⟩ := ih h
          rcases setKindTtl_spec hset with ⟨hcolon, rfl⟩ | ⟨kind, ttl, hnames, -, rfl⟩
          · refine ⟨table, hmain, ?_, by simp [hempty, hcolon]⟩
            intro k hk
            exact hlookup k fun s hs => hk s (List.mem_cons_of_mem _ hs)
          · refine ⟨table, hmain, ?_, ?_⟩
            · intro k hk
              have hne : k ≠ kind := fun heq => hk spec List.mem_cons_self (heq ▸ hnames)
              rw [hlookup k fun s hs => hk s (List.mem_cons_of_mem _ hs)]
              exact Finmap.lookup_insert_of_ne _ hne
            · rw [hempty]
              constructor
              · exact fun hboth => (insert_ne_empty hboth.1).elim
              · exact fun hboth => (hboth.2 spec List.mem_cons_self hnames.1).elim

/-! ## Every configuration that starts has `int` TTLs -/

theorem setKindTtl_intTtls {spec : Bytes} {o' : Options} (hok : setKindTtl spec o = .ok o')
    (h : IntTtls o.config) : IntTtls o'.config := by
  rcases setKindTtl_spec hok with ⟨-, rfl⟩ | ⟨kind, ttl, -, httl, rfl⟩
  · exact h
  · exact ⟨h.event, lookup_insert_of_forall (P := fun n => n < 2 ^ 31) httl h.kind⟩

theorem branch_intTtls {arg value : Bytes} {set : Bytes → Options → Except NumberError Options}
    {o' : Options} (hset : branch arg = some set) (hok : set value o = .ok o')
    (h : IntTtls o.config) : IntTtls o'.config := by
  rcases branch_cases hset with ⟨_, rfl⟩ | hfield
  · exact setKindTtl_intTtls hok h
  · exact hfield.intTtls value o o' hok h

theorem main_intTtls {options : Options} (hrun : main o args = .start options)
    (h : IntTtls o.config) : IntTtls options.config := by
  fun_induction main o args with
  | case1 o =>
      cases hrun
      exact h
  | case2 o arg hhelp => cases hrun
  | case3 o arg hhelp =>
      cases hrun
      exact h
  | case4 o arg value rest set hset o' hok ih => exact ih hrun (branch_intTtls hset hok h)
  | case5 o arg value rest set hset e herror => cases hrun
  | case6 o arg value rest hnone hhelp => cases hrun
  | case7 o arg value rest hnone hhelp ih => exact ih hrun h

def defaultTtl (kind : UInt16) : Option Int :=
  (RelayServer.create { }).config.kindTtl.lookup kind

theorem ttl_create_of_empty (config : RelayConfig) (h : config.kindTtl = ∅) (kind : UInt16) :
    (RelayServer.create config).ttl kind =
      (defaultTtl kind).getD config.eventTtlSeconds := by
  simp only [RelayServer.ttl, RelayServer.create, defaultTtl, h, if_true]

theorem ttl_create_of_ne (config : RelayConfig) (h : config.kindTtl ≠ ∅) (kind : UInt16) :
    (RelayServer.create config).ttl kind =
      (config.kindTtl.lookup kind).getD config.eventTtlSeconds := by
  simp only [RelayServer.ttl, RelayServer.create, h, if_false]

/-- The TTL of a kind that no `--kind-ttl` option names is the one without these options
exactly when none of them has a colon, or the kind has no entry in the constructor's table, or
its entry is the TTL of all other kinds anyway. -/
theorem ttl_kindTtlArgs_iff (specs args : List Bytes) {base options : Options} {kind : UInt16}
    (hother : lit "--kind-ttl" ∉ args) (hbase : main { } args = .start base)
    (hrun : main { } (kindTtlArgs specs ++ args) = .start options)
    (hnamed : ∀ spec ∈ specs, ¬ Names spec kind) :
    (RelayServer.create options.config).ttl kind = (RelayServer.create base.config).ttl kind ↔
      (∀ spec ∈ specs, 58 ∉ spec) ∨ defaultTtl kind = none ∨
        defaultTtl kind = some base.config.eventTtlSeconds := by
  obtain ⟨table, hmain, hlookup, hempty⟩ := main_kindTtlArgs hrun
  have hrest := main_withTable hother { } table
  have hsame := main_withTable hother { } ∅
  have hstart : ({ } : Options).withTable ∅ = { } := rfl
  rw [hmain, hbase] at hrest
  rw [hstart, hbase] at hsame
  simp only [Outcome.withTable, Outcome.start.injEq] at hrest hsame
  have hbaseTable : base.config.kindTtl = ∅ := by
    rw [hsame]
    rfl
  have hnone : table.lookup kind = none := hlookup kind hnamed
  rw [hrest, ttl_create_of_empty _ hbaseTable]
  by_cases hcolon : ∀ spec ∈ specs, 58 ∉ spec
  · have htable : table = ∅ := hempty.mpr ⟨rfl, hcolon⟩
    have hsameTtl := ttl_create_of_empty (withTable table base).config htable kind
    exact iff_of_true hsameTtl (Or.inl hcolon)
  · have htable : table ≠ ∅ := fun h => hcolon (hempty.mp h).2
    have hwith := ttl_create_of_ne (withTable table base).config htable kind
    rw [hwith]
    simp only [withTable, hnone, Option.getD_none, hcolon, false_or]
    cases hdefault : defaultTtl kind with
    | none => simp
    | some seconds =>
        simp only [Option.getD_some, Option.some.injEq, reduceCtorEq, false_or]
        exact eq_comm

/-- `--kind-ttl 1:100`. -/
def notesOption : List Bytes := [lit "1:100"]

theorem not_names_notesOption : ∀ spec ∈ notesOption, ¬ Names spec 30079 := by
  intro spec hspec hnames
  have hone : stoi (beforeColon (lit "1:100")) = .ok 1 := by decide
  obtain ⟨n, hn, hkind⟩ := hnames.2
  rw [List.mem_singleton.mp hspec, hone] at hn
  cases hn
  exact absurd hkind (by decide)

theorem main_notesOption : main { } (kindTtlArgs notesOption ++ []) =
    .start { config := { kindTtl := (∅ : Finmap fun _ : UInt16 => Int).insert 1 100 } } := by
  have hset : setKindTtl (lit "1:100") { } =
      .ok { config := { kindTtl := (∅ : Finmap fun _ : UInt16 => Int).insert 1 100 } } := by
    rfl
  simp only [kindTtlArgs, notesOption, List.flatMap_cons, List.flatMap_nil, List.append_nil,
    main, branch_kindTtl, hset]

theorem ttl_notesOption_iff :
    (RelayServer.create { kindTtl := (∅ : Finmap fun _ : UInt16 => Int).insert 1 100 }).ttl 30079 =
        (RelayServer.create { }).ttl 30079 ↔
      (∀ spec ∈ notesOption, 58 ∉ spec) ∨ defaultTtl 30079 = none ∨
        defaultTtl 30079 = some (86400 * 7) :=
  ttl_kindTtlArgs_iff notesOption [] List.not_mem_nil rfl main_notesOption not_names_notesOption

/-- `--kind-ttl 1:100` starts a relay that deletes achievements after seven days. -/
theorem achievements_expire_with_notesOption :
    main { } (kindTtlArgs notesOption) =
        .start { config := { kindTtl := (∅ : Finmap fun _ : UInt16 => Int).insert 1 100 } } ∧
      (∀ spec ∈ notesOption, ¬ Names spec 30079) ∧
      (RelayServer.create { }).ttl 30079 = 0 ∧
      (RelayServer.create
        { kindTtl := (∅ : Finmap fun _ : UInt16 => Int).insert 1 100 }).ttl 30079 = 86400 * 7 := by
  refine ⟨?_, not_names_notesOption, by decide, by decide⟩
  rw [← List.append_nil (kindTtlArgs notesOption)]
  exact main_notesOption

end Options

end LinuxLive.Relay

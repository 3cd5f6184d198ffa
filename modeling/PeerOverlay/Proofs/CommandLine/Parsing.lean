/-
Reading what was written.

A level that has read some items settles to their options and texts, `Level.Settles`, whether
or not the value of the last one is still to be looked at.

* `scan_item` — what reading one item adds, in each of its spellings;
* `scan_items` — what reading items one after another adds;
* `parse_generate` — a command line to generate a network asks for what its items ask for.
-/
import Mathlib.Data.List.TakeWhile
import Mathlib.Tactic.FinCases
import PeerOverlay.Proofs.CommandLine.Requests

namespace PeerOverlay.CommandLine

variable {l : Level} {g : Givens} {known : List OptionName} {o : OptionName} {c : Char}
  {name text : String} {items : List Item} {i : Item} {s : Setting} {spelling : Spelling}

/-! ### Shapes of arguments -/

/-- An argument that begins with two hyphens: its name ends where an equals sign stands. -/
theorem shape_of_hyphens {argument : String} (tail : List Char)
    (hargument : argument.toList = '-' :: '-' :: (name.toList ++ tail)) (hne : name.toList ≠ [])
    (hname : '=' ∉ name.toList) (htail : tail.head?.all (· = '=')) :
    Shape.of argument = .long name (attachedValue tail) := by
  have hplain : ∀ c ∈ name.toList, (decide (c ≠ '=')) = true := by
    intro c hc
    rw [decide_eq_true_iff]
    rintro rfl
    exact hname hc
  have htake : (name.toList ++ tail).takeWhile (· ≠ '=') = name.toList := by
    rw [List.takeWhile_append_of_pos hplain]
    cases tail with
    | nil => simp
    | cons c rest => simp_all
  have hdrop : (name.toList ++ tail).dropWhile (· ≠ '=') = tail := by
    rw [List.dropWhile_append_of_pos hplain]
    cases tail with
    | nil => simp
    | cons c rest => simp_all
  obtain ⟨c, rest, hbody⟩ : ∃ c rest, name.toList ++ tail = c :: rest := by
    cases hcs : name.toList with
    | nil => exact absurd hcs hne
    | cons c rest => exact ⟨c, rest ++ tail, rfl⟩
  rw [hbody] at hargument htake hdrop
  rw [Shape.of, hargument]
  show Shape.long (String.ofList ((c :: rest).takeWhile (· ≠ '=')))
    (attachedValue ((c :: rest).dropWhile (· ≠ '='))) = _
  rw [htake, hdrop, String.ofList_toList]

theorem shape_letters {letters : List Char} (hc : c ≠ '-') :
    Shape.of (String.ofList ('-' :: c :: letters)) = .letters (c :: letters) := by
  rw [Shape.of, String.toList_ofList]
  split
  next h => simp_all
  next h => simp_all
  next h =>
    obtain ⟨-, h⟩ := List.cons.inj h
    rw [h]
  next h => simp_all

theorem shape_word (h : IsPlain text) : Shape.of text = .word := by
  obtain ⟨c, cs, htext, hc⟩ := h
  rw [Shape.of, htext]
  split
  next h => simp_all
  next h => simp_all
  next h => simp_all
  next h => rfl

/-! ### Levels -/

namespace Level

/-- What a level has read are options with texts, and it waits for no value. -/
structure Settles (l : Level) (g : Givens) : Prop where
  settle : l.settle = .ok { given := g }
  waits : l.waits = false

theorem settles_empty : ({} : Level).Settles [] :=
  ⟨rfl, rfl⟩

/-- A new option is noted with a text that its type accepts. -/
theorem record_eq_ok (hfresh : l.given.lookup o = none)
    (htext : ∀ kind, o.kind? = some kind → kind.accepts text = true) :
    l.record o text = .ok { l with given := l.given ++ [(o, text)] } := by
  rw [record, hfresh]
  cases hkind : o.kind? with
  | none => rfl
  | some kind =>
    have hcheck : checkValue o kind text = .ok () := by
      unfold checkValue
      rw [if_pos (htext kind hkind)]
    show (checkValue o kind text >>= fun _ => pure _) = _
    rw [hcheck]
    rfl

variable (hl : l.Settles g) (hfresh : g.lookup o = none)
  (htext : ∀ kind, o.kind? = some kind → kind.accepts text = true)
include hl

include hfresh htext in
/-- An option with its value attached. -/
theorem readOption_attached :
    ∃ l', l.readOption o (some text) = .ok l' ∧ l'.Settles (g ++ [(o, text)]) := by
  refine ⟨{ given := g ++ [(o, text)] }, ?_, rfl, rfl⟩
  rw [readOption, hl.settle]
  exact record_eq_ok hfresh htext

include hfresh htext in
/-- An option whose value stands in the next argument. -/
theorem readOption_apart :
    ∃ l', l.readOption o none = .ok l' ∧ l'.waits = true ∧
      (l'.supply text).Settles (g ++ [(o, text)]) := by
  refine ⟨{ given := g, pending := some (o, none) }, ?_, rfl, ?_, rfl⟩
  · rw [readOption, hl.settle]
    rfl
  · show ({ given := g } : Level).record o text = _
    exact record_eq_ok hfresh htext

end Level

/-! ### Known options -/

/-- An option is known by its name and by its letter. -/
structure Knows (known : List OptionName) (o : OptionName) : Prop where
  long : known.find? (·.long = o.long) = some o
  letter : ∀ c, o.letter? = some c → known.find? (·.letter? = some c) = some o

theorem knows_generate (h : o ∈ CommandName.generate.options) :
    Knows CommandName.generate.options o := by
  fin_cases h
  all_goals
    refine ⟨by decide +kernel, fun c hc => ?_⟩
    cases hc <;> decide +kernel

theorem knows_logLevel : Knows leadingOptions .logLevel :=
  ⟨by decide +kernel, fun c hc => nomatch hc⟩

theorem long_ne_nil (o : OptionName) : o.long.toList ≠ [] := by
  cases o <;> decide

theorem not_mem_long (o : OptionName) : '=' ∉ o.long.toList := by
  cases o <;> decide

theorem letter_ne_hyphen (h : o.letter? = some c) : c ≠ '-' := by
  rintro rfl
  cases o <;> cases h

/-- A setting has a type of value, and its text is of this type. -/
theorem accepts_of_isWritten (h : s.IsWritten text) (hne : text ≠ "") :
    ∃ kind, s.name.kind? = some kind ∧ kind.accepts text = true := by
  cases s with
  | config path => exact ⟨.path, rfl, decide_eq_true hne⟩
  | output dir => exact ⟨.path, rfl, decide_eq_true hne⟩
  | host host => exact ⟨.text, rfl, rfl⟩
  | logLevel level => exact ⟨.text, rfl, rfl⟩
  | _ => exact ⟨_, rfl, Option.isSome_iff_exists.mpr ⟨_, h⟩⟩

theorem ne_empty_of_isPlain (h : IsPlain text) : text ≠ "" := by
  rintro rfl
  obtain ⟨c, cs, hcs, -⟩ := h
  cases hcs

/-! ### Reading options -/

section Reading

variable {kind : ValueKind} (hk : Knows known o) (hkind : o.kind? = some kind)
include hk hkind

theorem readLong_of_kind (attached : Option String) :
    l.readLong known o.long attached = l.readOption o attached := by
  rw [Level.readLong, hk.long]
  simp only [hkind]

theorem readLetters_apart (hc : o.letter? = some c) :
    l.readLetters known [c] = l.readOption o none := by
  rw [Level.readLetters, hk.letter c hc]
  simp only [hkind]

theorem readLetters_joined (hc : o.letter? = some c) :
    l.readLetters known (c :: '=' :: text.toList) = l.readOption o (some text) := by
  rw [Level.readLetters, hk.letter c hc]
  simp only [hkind, String.ofList_toList]

theorem readLetters_attached (hc : o.letter? = some c) (hplain : IsPlain text)
    (hequals : text.toList.head? ≠ some '=') :
    l.readLetters known (c :: text.toList) = l.readOption o (some text) := by
  obtain ⟨d, ds, hds, -⟩ := hplain
  have hd : d ≠ '=' := by
    rintro rfl
    exact hequals (by rw [hds]; rfl)
  rw [Level.readLetters, hk.letter c hc]
  simp only [hkind, hds]
  split
  next h => cases h
  next h => exact absurd (List.cons.inj h).1 hd
  next => rw [← hds, String.ofList_toList]

end Reading

theorem scan_long {argument : String} {rest : List String} {attached : Option String}
    (h : Shape.of argument = .long name attached) :
    scan known (argument :: rest) l =
      (l.readLong known name attached >>= fun l => scan known rest l) := by
  rw [scan, h]

theorem scan_letters {argument : String} {rest : List String} {letters : List Char}
    (h : Shape.of argument = .letters letters) :
    scan known (argument :: rest) l =
      (l.readLetters known letters >>= fun l => scan known rest l) := by
  rw [scan, h]

theorem scan_value {rest : List String} (h : IsPlain text) (hl : l.waits = true) :
    scan known (text :: rest) l = scan known rest (l.supply text) := by
  rw [scan, shape_word h]
  exact if_pos hl

theorem scan_overwrite (hl : l.Settles g) (hk : Knows known .overwrite)
    (hfresh : g.lookup .overwrite = none) (rest : List String) :
    ∃ l', l'.Settles (g ++ [(.overwrite, "")]) ∧
      scan known ("--overwrite" :: rest) l = scan known rest l' := by
  have hshape : Shape.of "--overwrite" = .long OptionName.overwrite.long none := by
    decide +kernel
  have hrecord : ({ given := g } : Level).record .overwrite "" =
      .ok { given := g ++ [(.overwrite, "")] } :=
    Level.record_eq_ok hfresh fun kind hkind => nomatch hkind
  have hread : l.readLong known OptionName.overwrite.long none =
      .ok { given := g ++ [(.overwrite, "")] } := by
    rw [Level.readLong, hk.long]
    show l.readFlag .overwrite = _
    rw [Level.readFlag, hl.settle]
    exact hrecord
  refine ⟨{ given := g ++ [(.overwrite, "")] }, ⟨rfl, rfl⟩, ?_⟩
  rw [scan_long hshape, hread]
  rfl

/-- A setting adds the same in each of its spellings. -/
theorem scan_setting (hl : l.Settles g) (hk : Knows known s.name)
    (hv : (Item.setting s spelling text).Valid) (hfresh : g.lookup s.name = none)
    (rest : List String) :
    ∃ l', l'.Settles (g ++ [(s.name, text)]) ∧
      scan known ((Item.setting s spelling text).arguments ++ rest) l = scan known rest l' := by
  obtain ⟨hwritten, hplain, hfits⟩ := hv
  obtain ⟨kind, hkind, haccepts⟩ := accepts_of_isWritten hwritten (ne_empty_of_isPlain hplain)
  have htext : ∀ kind, s.name.kind? = some kind → kind.accepts text = true := by
    intro kind' hkind'
    rw [hkind] at hkind'
    exact Option.some.inj hkind' ▸ haccepts
  -- The value is attached, or it is supplied by the next argument.
  obtain ⟨attached, hattached, hsettles⟩ := Level.readOption_attached hl hfresh htext
  obtain ⟨apart, hapart, hwaits, hsupplied⟩ := Level.readOption_apart hl hfresh htext
  cases spelling with
  | long =>
    have hshape : Shape.of ("--" ++ s.name.long) = .long s.name.long none :=
      shape_of_hyphens [] (by simp) (long_ne_nil _) (not_mem_long _) rfl
    refine ⟨apart.supply text, hsupplied, ?_⟩
    show scan known (("--" ++ s.name.long) :: text :: rest) l = _
    rw [scan_long hshape, readLong_of_kind hk hkind, hapart]
    exact scan_value hplain hwaits
  | longJoined =>
    have hshape : Shape.of ("--" ++ s.name.long ++ "=" ++ text) =
        .long s.name.long (some text) := by
      have hlist : ("--" ++ s.name.long ++ "=" ++ text).toList =
          '-' :: '-' :: (s.name.long.toList ++ '=' :: text.toList) := by simp
      rw [shape_of_hyphens _ hlist (long_ne_nil _) (not_mem_long _) rfl, attachedValue,
        String.ofList_toList]
    refine ⟨attached, hsettles, ?_⟩
    show scan known (("--" ++ s.name.long ++ "=" ++ text) :: rest) l = _
    rw [scan_long hshape, readLong_of_kind hk hkind, hattached]
    rfl
  | letter c =>
    refine ⟨apart.supply text, hsupplied, ?_⟩
    show scan known (String.ofList ['-', c] :: text :: rest) l = _
    rw [scan_letters (shape_letters (letter_ne_hyphen hfits)), readLetters_apart hk hkind hfits,
      hapart]
    exact scan_value hplain hwaits
  | letterJoined c =>
    refine ⟨attached, hsettles, ?_⟩
    show scan known (String.ofList ('-' :: c :: '=' :: text.toList) :: rest) l = _
    rw [scan_letters (shape_letters (letter_ne_hyphen hfits)), readLetters_joined hk hkind hfits,
      hattached]
    rfl
  | letterAttached c =>
    obtain ⟨hc, hequals⟩ := hfits
    refine ⟨attached, hsettles, ?_⟩
    show scan known (String.ofList ('-' :: c :: text.toList) :: rest) l = _
    rw [scan_letters (shape_letters (letter_ne_hyphen hc)),
      readLetters_attached hk hkind hc hplain hequals, hattached]
    rfl

/-- **What reading one item adds.** -/
theorem scan_item (hl : l.Settles g) (hk : Knows known i.name) (hv : i.Valid)
    (hfresh : g.lookup i.name = none) (rest : List String) :
    ∃ l', l'.Settles (g ++ [(i.name, i.text)]) ∧
      scan known (i.arguments ++ rest) l = scan known rest l' := by
  cases i with
  | overwrite => exact scan_overwrite hl hk hfresh rest
  | setting s spelling text => exact scan_setting hl hk hv hfresh rest

/-- What reading items one after another adds. -/
theorem scan_items (hl : l.Settles g) (hk : ∀ i ∈ items, Knows known i.name)
    (hv : ∀ i ∈ items, i.Valid) (hnd : (g.map Prod.fst ++ items.map Item.name).Nodup)
    (rest : List String) :
    ∃ l', l'.Settles (g ++ Givens.ofItems items) ∧
      scan known (items.flatMap Item.arguments ++ rest) l = scan known rest l' := by
  induction items generalizing l g with
  | nil => exact ⟨l, by simpa [Givens.ofItems] using hl, rfl⟩
  | cons i items ih =>
    have hfresh : g.lookup i.name = none := by
      rw [List.lookup_eq_none_iff]
      intro e he
      have hne := (List.nodup_append.mp hnd).2.2 e.1 (List.mem_map_of_mem he) i.name (by simp)
      simpa using hne.symm
    obtain ⟨l₁, hl₁, hscan⟩ := scan_item hl (hk i List.mem_cons_self) (hv i List.mem_cons_self)
      hfresh (items.flatMap Item.arguments ++ rest)
    obtain ⟨l₂, hl₂, hrest⟩ := ih hl₁ (fun j hj => hk j (List.mem_cons_of_mem _ hj))
      (fun j hj => hv j (List.mem_cons_of_mem _ hj)) (by simpa using hnd)
    refine ⟨l₂, by simpa [Givens.ofItems] using hl₂, ?_⟩
    rw [List.flatMap_cons, List.append_assoc, hscan, hrest]

/-! ### Command lines -/

/-- The options of the command to generate a network. -/
theorem name_mem_options (i : Item) : i.name ∈ CommandName.generate.options := by
  cases i with
  | overwrite => decide
  | setting s spelling text => cases s <;> simp [Item.name, Setting.name, CommandName.options]

/-- A word that names a command ends the options in front of it. -/
theorem scan_command (hl : l.Settles g) {word : String} (hword : IsPlain word)
    (rest : List String) :
    scan known (word :: rest) l = .ok (l, some ⟨word, false, rest⟩) := by
  rw [scan, shape_word hword]
  show (if l.waits then scan known rest (l.supply word) else .ok (l, some ⟨word, false, rest⟩)) = _
  rw [hl.waits]
  rfl

/-- What a command is asked for, given what its options and those in front of it settle to. -/
theorem read_of_settles {leading own : Level} {front back : Givens}
    {command : CommandName} {arguments : List String} (hleading : leading.Settles front)
    (hown : own.Settles back) (hscan : scan command.options arguments {} = .ok (own, none)) :
    command.read leading arguments =
      .ok ⟨(back ++ front).lookup .logLevel,
        command.command back ((back ++ front).lookup .logLevel)⟩ := by
  have hlevel : (back.lookup .logLevel).or (front.lookup .logLevel) =
      (back ++ front).lookup .logLevel := List.lookup_append.symm
  rw [CommandName.read, hscan]
  show (own.settle >>= fun own => leading.settle >>= fun leading => _) = _
  rw [hown.settle]
  show (leading.settle >>= fun leading => _) = _
  rw [hleading.settle, ← hlevel]
  rfl

/-- Items of the log level ask for no other option. -/
theorem lookup_append_logLevel {front : List Item} (hfront : ∀ i ∈ front, i.name = .logLevel)
    (ho : o ≠ .logLevel) :
    (Givens.ofItems (items ++ front)).lookup o = (Givens.ofItems items).lookup o := by
  have hnone : (Givens.ofItems front).lookup o = none := by
    rw [List.lookup_eq_none_iff]
    intro e he
    obtain ⟨i, hi, rfl⟩ := List.mem_map.mp he
    rw [hfront i hi]
    simpa using ho
  rw [Givens.ofItems, List.map_append, List.lookup_append]
  show ((Givens.ofItems items).lookup o).or ((Givens.ofItems front).lookup o) = _
  rw [hnone, Option.or_none]

/-- What is asked for with the log level in front of the command is asked for without it. -/
theorem command_append_logLevel {front : List Item} (hfront : ∀ i ∈ front, i.name = .logLevel)
    (level : Option String) :
    CommandName.generate.command (Givens.ofItems items) level =
      CommandName.generate.command (Givens.ofItems (items ++ front)) level := by
  have hlookup : ∀ o ≠ OptionName.logLevel,
      (Givens.ofItems items).lookup o = (Givens.ofItems (items ++ front)).lookup o :=
    fun o ho => (lookup_append_logLevel hfront ho).symm
  have hoverrides : (Givens.ofItems items).overrides level =
      (Givens.ofItems (items ++ front)).overrides level := by
    simp [Givens.overrides, hlookup]
  show Command.generate _ _ = Command.generate _ _
  rw [hoverrides, hlookup .config (by decide)]

/-- **A command line to generate a network asks for what its items ask for.**  The items stand
in any order and each in any of its spellings, and of each option there is at most one; only
the log level may also stand in front of the command.  A field has a value exactly if an item
asks for this value; all others are left unset. -/
theorem parse_generate {front items : List Item} (hfront : ∀ i ∈ front, i.name = .logLevel)
    (hv : ∀ i ∈ items ++ front, i.Valid) (hnd : ((items ++ front).map Item.name).Nodup) :
    ∃ config overrides,
      Invocation.parse (front.flatMap Item.arguments ++
          "generate" :: items.flatMap Item.arguments) =
        .ok ⟨overrides.logLevel, .generate config overrides⟩ ∧
      (∀ path, config = some path ↔ ∃ i ∈ items ++ front, i.request.config = some path) ∧
      ∀ f x, overrides.get? f = some x ↔
        ∃ i ∈ items ++ front, i.request.overrides.get? f = some x := by
  obtain ⟨hback, hleads, -⟩ := List.nodup_append.mp (List.map_append ▸ hnd)
  -- The options in front of the command and those behind it are read one level after the other.
  have hknows : ∀ i ∈ front, Knows leadingOptions i.name := by
    intro i hi
    rw [hfront i hi]
    exact knows_logLevel
  obtain ⟨leading, hleading, hscan⟩ := scan_items Level.settles_empty hknows
    (fun i hi => hv i (List.mem_append_right _ hi)) hleads
    ("generate" :: items.flatMap Item.arguments)
  obtain ⟨own, hown, hscan'⟩ := scan_items Level.settles_empty
    (fun i (_ : i ∈ items) => knows_generate (name_mem_options i))
    (fun i hi => hv i (List.mem_append_left _ hi)) hback []
  rw [List.append_nil] at hscan'
  have hread := read_of_settles hleading hown hscan'
  have hlist : [] ++ Givens.ofItems items ++ ([] ++ Givens.ofItems front) =
      Givens.ofItems (items ++ front) := List.map_append.symm
  rw [hlist, List.nil_append, command_append_logLevel hfront] at hread
  refine ⟨_, _, ?_, config_givens hv hnd, get?_overrides_givens hv hnd⟩
  rw [Invocation.parse, hscan,
    scan_command hleading ⟨'g', "enerate".toList, by decide +kernel, by decide⟩]
  exact hread

/-- Items in several spellings; two values look like a command, and one holds an equals sign. -/
def mixedItems : List Item :=
  [.setting (.host "a=b") .longJoined "a=b", .setting (.k 4) (.letterAttached 'k') "4", .overwrite,
    .setting (.tcpReceiverPortStart 34001) .long "34001",
    .setting (.config "help") (.letterJoined 'c') "help"]

/-- Behind the log level all items of `mixedItems` are read, and the base port of one counter
does not become that of another. -/
theorem parse_generate_mixed :
    ∃ config overrides,
      Invocation.parse ["--log-level", "generate", "generate", "--host=a=b", "-k4", "--overwrite",
          "--tcp-receiver-port-start", "34001", "-c=help"] =
        .ok ⟨overrides.logLevel, .generate config overrides⟩ ∧
      config = some (.ofText "help") ∧ overrides.get? .logLevel = some (some "generate") ∧
      overrides.get? .k = some (4 : Nat) ∧ overrides.get? .tcp = some (34001 : UInt16) ∧
      overrides.get? .overwrite = some true ∧ overrides.get? .udp = none := by
  have hv : ∀ i ∈ mixedItems ++ [.setting (.logLevel "generate") .long "generate"], i.Valid := by
    intro i hi
    simp only [mixedItems, List.cons_append, List.nil_append, List.mem_cons, List.not_mem_nil,
      or_false] at hi
    rcases hi with rfl | rfl | rfl | rfl | rfl | rfl
    · exact ⟨rfl, ⟨'a', ['=', 'b'], by decide +kernel, by decide⟩, trivial⟩
    · exact ⟨show size? "4" = some 4 by decide +kernel, ⟨'4', [], by decide +kernel, by decide⟩,
        rfl, by decide +kernel⟩
    · trivial
    · exact ⟨show port? "34001" = some 34001 by decide +kernel,
        ⟨'3', ['4', '0', '0', '1'], by decide +kernel, by decide⟩, trivial⟩
    · exact ⟨rfl, ⟨'h', ['e', 'l', 'p'], by decide +kernel, by decide⟩, rfl⟩
    · exact ⟨rfl, ⟨'g', "enerate".toList, by decide +kernel, by decide⟩, trivial⟩
  obtain ⟨config, overrides, hparse, hconfig, hover⟩ :=
    parse_generate (by decide +kernel) hv (by decide +kernel)
  refine ⟨config, overrides, ?_, ?_, ?_, ?_, ?_, ?_, ?_⟩
  · exact hparse
  · exact (hconfig _).mpr ⟨.setting (.config "help") (.letterJoined 'c') "help",
      by simp [mixedItems], rfl⟩
  · exact (hover .logLevel (some "generate")).mpr
      ⟨.setting (.logLevel "generate") .long "generate", by simp, rfl⟩
  · exact (hover .k (4 : Nat)).mpr
      ⟨.setting (.k 4) (.letterAttached 'k') "4", by simp [mixedItems], rfl⟩
  · exact (hover .tcp (34001 : UInt16)).mpr
      ⟨.setting (.tcpReceiverPortStart 34001) .long "34001", by simp [mixedItems], rfl⟩
  · exact (hover .overwrite true).mpr ⟨.overwrite, by simp [mixedItems], rfl⟩
  · cases hudp : overrides.get? .udp with
    | none => rfl
    | some x =>
      obtain ⟨i, hi, hx⟩ := (hover .udp x).mp hudp
      simp only [mixedItems, List.cons_append, List.nil_append, List.mem_cons, List.not_mem_nil,
        or_false] at hi
      rcases hi with rfl | rfl | rfl | rfl | rfl | rfl <;> cases hx

end PeerOverlay.CommandLine

import Libchrome.Base.CommandLine

/-! Parsing an argument vector that was rendered by a `CommandLine` (`command_line.cc`). -/

namespace Libchrome.Base.CommandLine
open Library Bytes Collapsing

local instance : LinearOrder (List Byte) := Values.keyOrder

/-! ### Parsing -/

/-- The arguments before the terminator, or all without one. -/
def beforeTerminator (args : List StringType) : List StringType :=
  (args.map trimWhitespaceASCII).takeWhile (· ≠ kSwitchTerminator)

/-- The switches among arguments. -/
def switchesOf (args : List StringType) : List (StringType × StringType) := (beforeTerminator args).filterMap isSwitch

/-- The arguments that are not switches, with the terminator. -/
def argsOf (args : List StringType) : List StringType :=
  (beforeTerminator args).filter (fun arg => isSwitch arg = none) ++
    (args.map trimWhitespaceASCII).dropWhile (· ≠ kSwitchTerminator)

section Arguments
variable {arg : StringType} (rest : List StringType)

theorem beforeTerminator_terminator (ends : trimWhitespaceASCII arg = kSwitchTerminator) :
    beforeTerminator (arg :: rest) = [] := by
  simp [beforeTerminator, ends]

theorem beforeTerminator_cons (goesOn : trimWhitespaceASCII arg ≠ kSwitchTerminator) :
    beforeTerminator (arg :: rest) = trimWhitespaceASCII arg :: beforeTerminator rest := by
  simp [beforeTerminator, goesOn]

theorem argsOf_terminator (ends : trimWhitespaceASCII arg = kSwitchTerminator) :
    argsOf (arg :: rest) = kSwitchTerminator :: rest.map trimWhitespaceASCII := by
  rw [argsOf, beforeTerminator_terminator rest ends]
  simp [ends]

theorem switchesOf_terminator (ends : trimWhitespaceASCII arg = kSwitchTerminator) : switchesOf (arg :: rest) = [] := by
  rw [switchesOf, beforeTerminator_terminator rest ends, List.filterMap_nil]

section
variable (goesOn : trimWhitespaceASCII arg ≠ kSwitchTerminator)
include goesOn

theorem argsOf_switch {switch : StringType × StringType}
    (read : isSwitch (trimWhitespaceASCII arg) = some switch) : argsOf (arg :: rest) = argsOf rest := by
  rw [argsOf, beforeTerminator_cons rest goesOn, argsOf]
  simp [goesOn, read]

theorem switchesOf_switch {switch : StringType × StringType}
    (read : isSwitch (trimWhitespaceASCII arg) = some switch) :
    switchesOf (arg :: rest) = switch :: switchesOf rest := by
  rw [switchesOf, beforeTerminator_cons rest goesOn, List.filterMap_cons_some read, switchesOf]

theorem argsOf_arg
    (read : isSwitch (trimWhitespaceASCII arg) = none) :
    argsOf (arg :: rest) = trimWhitespaceASCII arg :: argsOf rest := by
  rw [argsOf, beforeTerminator_cons rest goesOn, argsOf]
  simp [goesOn, read]

theorem switchesOf_arg
    (read : isSwitch (trimWhitespaceASCII arg) = none) : switchesOf (arg :: rest) = switchesOf rest := by
  rw [switchesOf, beforeTerminator_cons rest goesOn, List.filterMap_cons_none read, switchesOf]

end

end Arguments

/-- The switches of a list, a later one with the same key in place of an earlier one. -/
def gather (switches : List (StringType × StringType)) : OrderedMap StringType StringType :=
  switches.foldl (fun map switch => map.update (switchKey switch.1) fun _ => switch.2) .empty

def gatherKeys (switches : List (StringType × StringType)) : OrderedMap StringType StringType :=
  switches.foldl (fun map switch => map.update (switchKey switch.1) fun _ => switchKey switch.1) .empty

/-- `argv_` is the program, the rendered switches and the arguments. -/
structure Built (cl : CommandLine) (program : StringType) (switches : List (StringType × StringType))
    (args : List StringType) : Prop where
  argv : cl.argv_ = program :: switches.map (fun switch => combinedSwitchString switch.1 switch.2) ++ args
  begin_args : cl.begin_args_ = switches.length + 1
  map : cl.switches_ = gather switches
  keys : cl.switches_by_stringpiece_ = gatherKeys switches

variable {cl : CommandLine} {program : StringType} {switches : List (StringType × StringType)} {args : List StringType}

section
variable (built : Built cl program switches args)
include built

theorem Built.appendSwitchNative (switch_string value : StringType) :
    Built (appendSwitchNative cl switch_string value) program (switches ++ [(switch_string, value)]) args where
  argv := by
    have front : (program :: switches.map fun switch => combinedSwitchString switch.1 switch.2).length = cl.begin_args_ := by
      rw [built.begin_args, List.length_cons, List.length_map]
    rw [CommandLine.appendSwitchNative, built.argv, ← front, List.take_left' rfl, List.drop_left' rfl, List.map_append]
    simp
  begin_args := by
    rw [CommandLine.appendSwitchNative, built.begin_args, List.length_append]
    rfl
  map := by
    rw [CommandLine.appendSwitchNative, built.map, gather, gather, List.foldl_append]
    rfl
  keys := by
    rw [CommandLine.appendSwitchNative, built.keys, gatherKeys, gatherKeys, List.foldl_append]
    rfl

theorem Built.appendArgNative (arg : StringType) :
    Built (appendArgNative cl arg) program switches (args ++ [arg]) :=
  { built with
    argv := by
      rw [CommandLine.appendArgNative, built.argv, List.append_assoc] }

theorem Built.foldl_false (rest : List StringType) :
    Built (rest.foldl appendNext (false, cl)).2 program switches (args ++ rest.map trimWhitespaceASCII) := by
  induction rest generalizing cl args with
  | nil => rwa [List.map_nil, List.append_nil]
  | cons arg rest ih =>
    rw [List.foldl_cons, List.map_cons, List.append_cons]
    exact ih (built.appendArgNative (trimWhitespaceASCII arg))

theorem Built.foldl_true (rest : List StringType) :
    Built (rest.foldl appendNext (true, cl)).2 program (switches ++ switchesOf rest) (args ++ argsOf rest) := by
  induction rest generalizing cl switches args with
  | nil =>
    change Built cl program (switches ++ []) (args ++ [])
    rwa [List.append_nil, List.append_nil]
  | cons arg rest ih =>
    by_cases ends : trimWhitespaceASCII arg = kSwitchTerminator
    · have next : appendNext (true, cl) arg = (false, CommandLine.appendArgNative cl kSwitchTerminator) := by
        rw [appendNext, ends]
        rfl
      rw [List.foldl_cons, next, switchesOf_terminator rest ends, argsOf_terminator rest ends, List.append_nil,
        List.append_cons]
      exact (built.appendArgNative kSwitchTerminator).foldl_false rest
    · cases read : isSwitch (trimWhitespaceASCII arg) with
      | none =>
        have next : appendNext (true, cl) arg = (true, CommandLine.appendArgNative cl (trimWhitespaceASCII arg)) := by
          simp [appendNext, ends, read]
        rw [List.foldl_cons, next, switchesOf_arg rest ends read, argsOf_arg rest ends read, List.append_cons]
        exact ih (built.appendArgNative _)
      | some switch =>
        have next : appendNext (true, cl) arg = (true, CommandLine.appendSwitchNative cl switch.1 switch.2) := by
          simp [appendNext, ends, read]
        rw [List.foldl_cons, next, switchesOf_switch rest ends read, argsOf_switch rest ends read, List.append_cons]
        exact ih (built.appendSwitchNative switch.1 switch.2)

end

/-- The program of an argument vector. -/
def programOf (argv : List StringType) : StringType := trimWhitespaceASCII (argv.head?.elim [] filePath)

theorem built_initFromArgv (argv : List StringType) :
    Built (initFromArgv argv) (programOf argv) (switchesOf (argv.drop 1)) (argsOf (argv.drop 1)) := by
  have start : Built (setProgram
      { argv_ := [[]], switches_ := .empty, switches_by_stringpiece_ := .empty, begin_args_ := 1 }
      (argv.head?.elim [] filePath)) (programOf argv) [] [] := ⟨rfl, rfl, rfl, rfl⟩
  exact start.foldl_true (argv.drop 1)

theorem argsOf_argsOf (rest : List StringType) : switchesOf (argsOf rest) = [] ∧ argsOf (argsOf rest) = argsOf rest := by
  induction rest with
  | nil => exact ⟨rfl, rfl⟩
  | cons arg rest ih =>
    by_cases ends : trimWhitespaceASCII arg = kSwitchTerminator
    · have again : trimWhitespaceASCII kSwitchTerminator = kSwitchTerminator := by
        rw [← ends, trimWhitespaceASCII_trimmed]
      rw [argsOf_terminator rest ends, switchesOf_terminator _ again, argsOf_terminator _ again, List.map_map]
      apply And.intro rfl
      congr 1
      apply List.map_congr_left
      intro other _
      exact trimWhitespaceASCII_trimmed other
    · cases read : isSwitch (trimWhitespaceASCII arg) with
      | none =>
        have goesOn : trimWhitespaceASCII (trimWhitespaceASCII arg) ≠ kSwitchTerminator := by
          rwa [trimWhitespaceASCII_trimmed]
        have same : isSwitch (trimWhitespaceASCII (trimWhitespaceASCII arg)) = none := by
          rwa [trimWhitespaceASCII_trimmed]
        rw [argsOf_arg rest ends read, switchesOf_arg _ goesOn same, argsOf_arg _ goesOn same,
          trimWhitespaceASCII_trimmed, ih.2]
        exact ⟨ih.1, rfl⟩
      | some switch =>
        rw [argsOf_switch rest ends read]
        exact ih

theorem switchesOf_rendered {switches : List (StringType × StringType)}
    (readable : ∀ switch ∈ switches, Readable switch.1 switch.2) (args : List StringType) :
    switchesOf (switches.map (fun switch => combinedSwitchString switch.1 switch.2) ++ args) =
      switches.map (fun switch => (prefixed switch.1, switch.2)) ++ switchesOf args ∧
    argsOf (switches.map (fun switch => combinedSwitchString switch.1 switch.2) ++ args) = argsOf args := by
  induction switches with
  | nil => exact ⟨rfl, rfl⟩
  | cons switch switches ih =>
    have reads := readable switch List.mem_cons_self
    obtain ⟨switchesIh, argsIh⟩ := ih fun other member => readable other (List.mem_cons_of_mem _ member)
    have goesOn : trimWhitespaceASCII (combinedSwitchString switch.1 switch.2) ≠ kSwitchTerminator := by
      rw [reads.trimmed]
      exact fun same => reads.bare (same ▸ List.mem_cons_self)
    have read : isSwitch (trimWhitespaceASCII (combinedSwitchString switch.1 switch.2)) =
        some (prefixed switch.1, switch.2) := by
      rw [reads.trimmed]
      exact reads.isSwitch
    rw [List.map_cons, List.cons_append, switchesOf_switch _ goesOn read, argsOf_switch _ goesOn read, switchesIh, argsIh,
      List.map_cons, List.cons_append]
    exact ⟨rfl, rfl⟩

theorem Built.of_prefixed
    (built : Built cl program (switches.map fun switch => (prefixed switch.1, switch.2)) args) :
    Built cl program switches args where
  argv := by
    rw [built.argv, List.map_map]
    congr 3
    funext switch
    exact combined_prefixed switch.1 switch.2
  begin_args := by rw [built.begin_args, List.length_map]
  map := by
    rw [built.map, gather, List.foldl_map, gather]
    simp only [switchKey_prefixed]
  keys := by
    rw [built.keys, gatherKeys, List.foldl_map, gatherKeys]
    simp only [switchKey_prefixed]

/-- Nothing else is in a command line. -/
theorem Built.unique {other : CommandLine} (built : Built cl program switches args)
    (otherBuilt : Built other program switches args) : cl = other := by
  obtain ⟨argv, map, keys, begin_args⟩ := cl
  obtain ⟨otherArgv, otherMap, otherKeys, otherBegin⟩ := other
  rw [CommandLine.mk.injEq]
  exact ⟨built.argv.trans otherBuilt.argv.symm, built.map.trans otherBuilt.map.symm,
    built.keys.trans otherBuilt.keys.symm, built.begin_args.trans otherBuilt.begin_args.symm⟩

theorem mem_of_mem_trim {input : StringType} {c : Byte} (member : c ∈ trimWhitespaceASCII input) : c ∈ input := by
  rw [trimWhitespaceASCII_eq, trimEnds] at member
  exact (List.dropWhile_sublist isBlank).subset ((List.rdropWhile_prefix isBlank _).subset member)

theorem programOf_programOf (argv rest : List StringType) : programOf (programOf argv :: rest) = programOf argv := by
  have uncut : filePath (programOf argv) = programOf argv := by
    rw [filePath, List.takeWhile_eq_self_iff]
    intro c member
    have within := mem_of_mem_trim member
    cases argv with
    | nil => cases within
    | cons program rest =>
      rw [List.head?_cons, Option.elim_some, filePath] at within
      have passes := List.mem_takeWhile_imp within
      exact passes
  calc programOf (programOf argv :: rest)
    _ = trimWhitespaceASCII (filePath (programOf argv)) := rfl
    _ = trimWhitespaceASCII (programOf argv) := by rw [uncut]
    _ = programOf argv := trimWhitespaceASCII_trimmed _

theorem Built.reparse {argv rest : List StringType} (built : Built cl (programOf argv) switches (argsOf rest))
    (readable : ∀ switch ∈ switches, Readable switch.1 switch.2) : initFromArgv cl.argv_ = cl := by
  have again := built_initFromArgv cl.argv_
  have vector := built.argv
  rw [List.cons_append] at vector
  obtain ⟨inert, same⟩ := argsOf_argsOf rest
  obtain ⟨switchesAgain, argsAgain⟩ := switchesOf_rendered readable (argsOf rest)
  have program : programOf cl.argv_ = programOf argv := by
    rw [vector, programOf_programOf]
  have switches_ : switchesOf (cl.argv_.drop 1) = switches.map fun switch => (prefixed switch.1, switch.2) := by
    rw [vector, List.drop_one, List.tail_cons, switchesAgain, inert, List.append_nil]
  have args_ : argsOf (cl.argv_.drop 1) = argsOf rest := by
    rw [vector, List.drop_one, List.tail_cons, argsAgain, same]
  rw [program, switches_, args_] at again
  exact again.of_prefixed.unique built

theorem readable_of_mem {rest : List StringType} {switch_string value : StringType}
    (member : (switch_string, value) ∈ switchesOf rest)
    (named : value = [] → switch_string ∉ kSwitchPrefixes ∧ trimWhitespaceASCII switch_string = switch_string) :
    Readable switch_string value := by
  rw [switchesOf, List.mem_filterMap] at member
  obtain ⟨arg, within, read⟩ := member
  obtain ⟨bare, has, plain, same⟩ := isSwitch_eq_some read
  by_cases empty : value = []
  · have combined : combinedSwitchString switch_string value = switch_string := by
      rw [combinedSwitchString, if_neg (not_not.mpr empty), prefixed_of_prefix has]
    constructor
    · exact plain
    · rw [combined]
      exact (named empty).1
    · rw [combined]
      exact (named empty).2
  · have combined : combinedSwitchString switch_string value = arg := by
      rw [combinedSwitchString, if_pos empty, prefixed_of_prefix has]
      exact (same.resolve_left fun both => empty both.2).symm
    constructor
    · exact plain
    · rwa [combined]
    · rw [combined]
      obtain ⟨original, _, rfl⟩ := List.mem_map.mp ((List.takeWhile_prefix _).subset within)
      exact trimWhitespaceASCII_trimmed original

/-- A list of switches appended one after the other. -/
def appendSwitches (cl : CommandLine) (more : List (StringType × StringType)) : CommandLine :=
  more.foldl (fun cl switch => cl.appendSwitchNative switch.1 switch.2) cl

theorem Built.appendSwitches (built : Built cl program switches args) (more : List (StringType × StringType)) :
    Built (cl.appendSwitches more) program (switches ++ more) args := by
  induction more generalizing cl switches with
  | nil => rwa [List.append_nil]
  | cons switch more ih =>
    rw [List.append_cons]
    exact ih (built.appendSwitchNative switch.1 switch.2)

theorem getSwitchValueNative_appended (switch_string value : StringType) :
    (cl.appendSwitchNative switch_string value).hasSwitch (switchKey switch_string) = true ∧
      (cl.appendSwitchNative switch_string value).getSwitchValueNative (switchKey switch_string) = value := by
  simp [hasSwitch, getSwitchValueNative, CommandLine.appendSwitchNative]

/-! ### What is read back -/

/-! ### Parsing again -/

/-- The vector of a parsed and extended command line is parsed to the same command line, as long as no switch of the
original vector has an empty value behind a bare prefix or blanks, and the further switches are readable. -/
theorem reparse_eq (argv : List StringType) (more : List (StringType × StringType))
    (named : ∀ switch_string, (switch_string, []) ∈ switchesOf (argv.drop 1) →
      switch_string ∉ kSwitchPrefixes ∧ trimWhitespaceASCII switch_string = switch_string)
    (readable : ∀ switch ∈ more, Readable switch.1 switch.2) :
    let first := (initFromArgv argv).appendSwitches more
    let second := initFromArgv first.argv_
    second.switches_ = first.switches_ ∧ second.getArgs = first.getArgs ∧
      ∀ switch_string value, more.getLast? = some (switch_string, value) →
        first.getSwitchValueNative (switchKey switch_string) = value ∧
        second.getSwitchValueNative (switchKey switch_string) = value := by
  intro first second
  have same : second = first := by
    apply ((built_initFromArgv argv).appendSwitches more).reparse
    intro switch member
    rcases List.mem_append.mp member with held | appended
    · apply readable_of_mem held
      intro empty
      apply named
      rw [← empty]
      exact held
    · exact readable switch appended
  rw [same]
  apply And.intro rfl
  apply And.intro rfl
  intro switch_string value last
  obtain ⟨front, rfl⟩ := List.getLast?_eq_some_iff.mp last
  have value_ : first.getSwitchValueNative (switchKey switch_string) = value := by
    change ((initFromArgv argv).appendSwitches (front ++ [(switch_string, value)])).getSwitchValueNative _ = value
    rw [CommandLine.appendSwitches, List.foldl_append]
    exact (getSwitchValueNative_appended switch_string value).2
  exact ⟨value_, value_⟩

/-- `p -x=1 -- --y`, with `a=b` appended. -/
theorem reparse_eq_mixed :
    let first := (initFromArgv [[0x70], [0x2d, 0x78, 0x3d, 0x31], [0x2d, 0x2d], [0x2d, 0x2d, 0x79]]).appendSwitches
      [([0x61], [0x62])]
    (initFromArgv first.argv_).getArgs = first.getArgs ∧ first.getArgs = [[0x2d, 0x2d, 0x79]] ∧
      (initFromArgv first.argv_).getSwitchValueNative [0x61] = [0x62] := by
  have named : ∀ switch_string,
      (switch_string, []) ∈ switchesOf [[0x2d, 0x78, 0x3d, 0x31], [0x2d, 0x2d], [0x2d, 0x2d, 0x79]] →
      switch_string ∉ kSwitchPrefixes ∧ trimWhitespaceASCII switch_string = switch_string := by
    intro switch_string member
    have held : switchesOf [[0x2d, 0x78, 0x3d, 0x31], [0x2d, 0x2d], [0x2d, 0x2d, 0x79]] = [([0x2d, 0x78], [0x31])] := by
      decide
    rw [held, List.mem_singleton] at member
    cases member
  have readable : ∀ switch ∈ [([0x61], [0x62])], Readable switch.1 switch.2 := by
    intro switch member
    rw [List.mem_singleton] at member
    rw [member]
    exact ⟨by decide, by decide, by decide⟩
  obtain ⟨_, args, values⟩ := reparse_eq [[0x70], [0x2d, 0x78, 0x3d, 0x31], [0x2d, 0x2d], [0x2d, 0x2d, 0x79]]
    [([0x61], [0x62])] named readable
  exact ⟨args, by decide, (values [0x61] [0x62] rfl).2⟩

/-- Blanks at the end of an appended value are trimmed when the vector is parsed again, and so are blanks in front of
the separator when the value is empty. -/
theorem reparse_trims :
    (let first := (initFromArgv [[0x70]]).appendSwitchNative [0x61] [0x62, 0x20]
    first.getSwitchValueNative [0x61] = [0x62, 0x20] ∧
      (initFromArgv first.argv_).getSwitchValueNative [0x61] = [0x62] ∧
      (initFromArgv first.argv_).switches_ ≠ first.switches_) ∧
    let first := initFromArgv [[0x70], [0x2d, 0x2d, 0x61, 0x20, 0x3d]]
    first.hasSwitch [0x61, 0x20] = true ∧ (initFromArgv first.argv_).hasSwitch [0x61, 0x20] = false ∧
      (initFromArgv first.argv_).switches_ ≠ first.switches_ := by
  apply And.intro
  · refine ⟨by decide, by decide, fun same => ?_⟩
    have values := congrArg (fun map => map.find [0x61]) same
    revert values
    decide
  · refine ⟨by decide, by decide, fun same => ?_⟩
    have values := congrArg (fun map => map.find [0x61]) same
    revert values
    decide

end Libchrome.Base.CommandLine

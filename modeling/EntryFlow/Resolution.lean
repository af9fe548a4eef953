import EntryFlow.Chain
import EntryFlow.Name.Call
import EntryFlow.Name.Words
import EntryFlow.Text.Case

/-!
# Resolution of call expressions

A raw call is resolved against the index from the context of the method that makes it. Four tiers
look for a declared method, in this order: the call read as a qualified signature, the chain of
declared types, the simple name of a type followed by a method name, and a bare name on the caller's
own type. Then calls into persistence and containers are recognised by their words, and last any
method of the same simple name will do. Calls on a logging receiver are dropped before all that.

## Main definitions

* `Conventions`: the words of the framework heuristic and the logging receivers.
* `Tier`, `Resolution`: how a call was resolved and to what.
* `Conventions.resolve`: the resolution of a call.
* `resolve_cases`: what a call can be resolved to.
* `mem_methodList_of_resolve`: a resolved method is a method of the index.
-/

namespace EntryFlow

/-- The words that mark framework calls, in order of preference, and the logging receivers. -/
structure Conventions where
  markers : List Datum
  receivers : List Datum

/-- The words that mark framework calls unless a configuration says otherwise. -/
def defaultMarkers : List String :=
  ["Repository", "Optional", "List", "Map", "Set", "Stream", "Collection", "EntityManager",
    "JdbcTemplate"]

/-- The logging receivers unless a configuration says otherwise. -/
def defaultReceivers : List String :=
  ["log", "logger", "LOG", "LOGGER", "System.out", "System.err"]

/-- Conventions that apply without a configuration. -/
def Conventions.default : Conventions where
  markers := defaultMarkers.map .text
  receivers := defaultReceivers.map .text

/-- Where a declared method was found. -/
inductive Tier where
  | direct
  | chain
  | className
  | bareName
  | nameAnywhere
  deriving DecidableEq, Repr

/-- What a call refers to. -/
inductive Resolution where
  /-- A method of the index, with its signature. -/
  | method (target : Method) (signature : String) (tier : Tier)
  /-- A call into a framework: the category of its receiver and the called name. -/
  | framework (category name : String)
  /-- A logging call. -/
  | ignored
  | unresolved
  deriving DecidableEq, Repr

/-- What the label of a framework call starts with. -/
def frameworkPrefix : String := "Framework method: "

/-- The label of a framework call. -/
def frameworkLabel (category name : String) : String :=
  frameworkPrefix ++ category ++ "." ++ name ++ "()"

namespace Resolution

/-- The text that stands for the target in a flow. -/
def label? : Resolution → Option String
  | method _ signature _ => some signature
  | framework category name => some (frameworkLabel category name)
  | _ => none

/-- The method that the call refers to. -/
def target? : Resolution → Option Method
  | method target _ _ => some target
  | _ => none

/-- Whether the call got a target. -/
def isResolved : Resolution → Bool
  | method .. => true
  | framework .. => true
  | _ => false

/-- Whether a walk goes no further here. -/
def isTerminal : Resolution → Bool
  | method .. => false
  | _ => true

end Resolution

/-- A raw call as normalized text; an absent call is empty. -/
def Datum.callText (raw : Datum) : Except Fault String :=
  if raw.isEmpty then .ok ""
  else
    match raw with
    | .text s => .ok (Call.unqualified s)
    | _ => .error .noTextOperation

namespace Conventions

/-- Whether a text starts with one of the receivers and a dot. -/
def startsLogging (call : List Char) : List Datum → Except Fault Bool
  | [] => .ok false
  | .text receiver :: rest =>
    if (receiver.toList ++ ['.']).isPrefixOf call then .ok true else startsLogging call rest
  | _ :: _ => .error .notAText

/-- Whether a call is made on a logging receiver. -/
def isLogging (conventions : Conventions) (raw : Datum) : Except Fault Bool := do
  startsLogging (← raw.callText).toList conventions.receivers

/-- The first of some markers whose words stand together among `words`. -/
def firstMention (words : List String) : List Datum → Except Fault (Option String)
  | [] => .ok none
  | marker :: rest =>
    if marker.isEmpty then firstMention words rest
    else
      match marker with
      | .text s => if Name.mentions words s then .ok (some s) else firstMention words rest
      | _ => .error .notAText

/-- The first marker that an identifier mentions. -/
def markerIn (conventions : Conventions) (identifier : String) : Except Fault (Option String) :=
  firstMention (Name.wordsOf identifier) conventions.markers

/-- The framework category of a type, by its name or by its kind. -/
def categoryOfType (conventions : Conventions) (index : Index) (name : String) :
    Except Fault (Option String) := do
  match ← conventions.markerIn (Name.simple name) with
  | some category => return some category
  | none =>
    match index.type? (.text name) with
    | none => return none
    | some t => return if Text.lower (← t.kindText) = "repository" then some "Repository" else none

/-- The category of the first of some names that mentions a marker. -/
def categoryOfNames (conventions : Conventions) : List String → Except Fault (Option String)
  | [] => .ok none
  | name :: names => do
    match ← conventions.markerIn name with
    | some category => return some category
    | none => conventions.categoryOfNames names

/-- The framework category of a call with a receiver: that of the type on which the last call is
made, and else that of the innermost qualifier that mentions a marker. -/
def frameworkCategory (conventions : Conventions) (index : Index) (segments : List String)
    (context : Context) : Except Fault (Option String) := do
  if segments.length < 2 then return none
  let byType ←
    match (← index.typeTrail segments context).getLast? with
    | some type => conventions.categoryOfType index type
    | none => .ok none
  match byType with
  | some category => return some category
  | none => conventions.categoryOfNames segments.dropLast.reverse

end Conventions

namespace Index

/-- The first method of that name on a type of that simple name, if such a type is indexed. -/
def methodOfType? (index : Index) (typeName name : String) : Option Method :=
  if (index.typeNamed? (.text typeName)).isSome then
    index.methodList.find? fun m => m.className = .text typeName && m.name = .text name
  else none

/-- The first method of that name. -/
def methodNamed? (index : Index) (name : String) : Option Method :=
  index.methodList.find? fun m => m.name = .text name

/-- The method that one tier finds for a normalized call and its segments. -/
def findIn (index : Index) (call : String) (segments : List String) (context : Context) :
    Tier → Except Fault (Option Method)
  | .direct => .ok ((Call.callee? call).bind index.method?)
  | .chain => index.follow segments context
  | .className =>
    .ok <| match segments.reverse with
      | name :: typeName :: _ => index.methodOfType? typeName name
      | _ => none
  | .bareName =>
    match segments with
    | [name] => index.lookupMember context.callerType name
    | _ => .ok none
  | .nameAnywhere => .ok (segments.getLast?.bind index.methodNamed?)

/-- The first tier that finds a method. -/
def firstFound (index : Index) (call : String) (segments : List String) (context : Context) :
    List Tier → Except Fault (Option (Tier × Method))
  | [] => .ok none
  | tier :: tiers =>
    match index.findIn call segments context tier with
    | .error fault => .error fault
    | .ok (some m) => .ok (some (tier, m))
    | .ok none => index.firstFound call segments context tiers

end Index

/-- A call that was resolved to a method. -/
def Resolution.found (tier : Tier) (m : Method) : Except Fault Resolution :=
  m.signature.map (.method m · tier)

namespace Conventions

/-- The tiers that come before the framework heuristic. -/
def declaredTiers : List Tier := [.direct, .chain, .className, .bareName]

/-- The resolution of a normalized call that is not blank and no logging call. -/
def resolveSegments (conventions : Conventions) (index : Index) (call : String)
    (segments : List String) (context : Context) : Except Fault Resolution :=
  if segments.isEmpty then .ok .unresolved
  else
    match index.firstFound call segments context declaredTiers with
    | .error fault => .error fault
    | .ok (some (tier, m)) => Resolution.found tier m
    | .ok none =>
      match conventions.frameworkCategory index segments context with
      | .error fault => .error fault
      | .ok (some category) => .ok (.framework category (segments.getLast?.getD ""))
      | .ok none =>
        match index.firstFound call segments context [.nameAnywhere] with
        | .error fault => .error fault
        | .ok (some (tier, m)) => Resolution.found tier m
        | .ok none => .ok .unresolved

/-- What a raw call refers to. -/
def resolve (conventions : Conventions) (index : Index) (raw : Datum) (context : Context) :
    Except Fault Resolution :=
  match raw.callText with
  | .error fault => .error fault
  | .ok call =>
    if call.isEmpty then .ok .unresolved
    else
      match conventions.isLogging (.text call) with
      | .error fault => .error fault
      | .ok true => .ok .ignored
      | .ok false =>
        conventions.resolveSegments index call (Call.segments call) context

end Conventions

namespace Index

theorem mem_methodList_of_findIn {index : Index} {call : String} {segments : List String}
    {context : Context} {tier : Tier} {m : Method}
    (h : index.findIn call segments context tier = .ok (some m)) : m ∈ index.methodList := by
  cases tier with
  | direct =>
    simp only [findIn, Except.ok.injEq, Option.bind_eq_some_iff] at h
    obtain ⟨_, _, h⟩ := h
    exact mem_methodList_of_method? h
  | chain => exact mem_methodList_of_follow h
  | className =>
    simp only [findIn, Except.ok.injEq] at h
    split at h
    · simp only [methodOfType?] at h
      split at h
      · exact List.mem_of_find?_eq_some h
      · simp at h
    · simp at h
  | bareName =>
    simp only [findIn] at h
    split at h
    · exact mem_methodList_of_lookupMember h
    · simp at h
  | nameAnywhere =>
    simp only [findIn, Except.ok.injEq, Option.bind_eq_some_iff] at h
    obtain ⟨_, _, h⟩ := h
    exact List.mem_of_find?_eq_some h

/-- What is found first was found by its tier. -/
theorem findIn_of_firstFound {index : Index} {call : String} {segments : List String}
    {context : Context} {tiers : List Tier} {tier : Tier} {m : Method}
    (h : index.firstFound call segments context tiers = .ok (some (tier, m))) :
    index.findIn call segments context tier = .ok (some m) := by
  induction tiers with
  | nil => simp [firstFound] at h
  | cons t tiers ih =>
    simp only [firstFound] at h
    split at h
    · simp at h
    · rename_i hfound
      cases h
      exact hfound
    · exact ih h

theorem mem_methodList_of_firstFound {index : Index} {call : String} {segments : List String}
    {context : Context} {tiers : List Tier} {tier : Tier} {m : Method}
    (h : index.firstFound call segments context tiers = .ok (some (tier, m))) :
    m ∈ index.methodList :=
  mem_methodList_of_findIn (findIn_of_firstFound h)

end Index

/-- What is found is a method, with its signature. -/
theorem Resolution.exists_signature_of_found {tier : Tier} {m : Method} {resolution : Resolution}
    (h : Resolution.found tier m = .ok resolution) :
    ∃ signature, m.signature = .ok signature ∧ resolution = .method m signature tier := by
  unfold Resolution.found at h
  cases hs : m.signature with
  | error fault =>
    rw [hs] at h
    cases h
  | ok signature =>
    rw [hs] at h
    cases h
    exact ⟨signature, rfl, rfl⟩

theorem Resolution.of_found {found tier : Tier} {m target : Method} {signature : String}
    (h : Resolution.found found m = .ok (.method target signature tier)) :
    m = target ∧ found = tier ∧ m.signature = .ok signature := by
  obtain ⟨_, hsignature, hr⟩ := exists_signature_of_found h
  cases hr
  exact ⟨rfl, rfl, hsignature⟩

/-- A call is resolved to nothing or ignored, or it has names, and it is a framework call or a call
of a method that the look-up of some tiers finds. -/
theorem Conventions.resolve_cases {conventions : Conventions} {index : Index} {raw : Datum}
    {context : Context} {resolution : Resolution}
    (h : conventions.resolve index raw context = .ok resolution) :
    ∃ call, raw.callText = .ok call ∧
      (resolution = .unresolved ∨
        resolution = .ignored ∧ conventions.isLogging (.text call) = .ok true ∨
        Call.segments call ≠ [] ∧
          ((∃ category,
            conventions.frameworkCategory index (Call.segments call) context =
                .ok (some category) ∧
              resolution = .framework category ((Call.segments call).getLast?.getD "")) ∨
            ∃ tiers tier m,
              index.firstFound call (Call.segments call) context tiers = .ok (some (tier, m)) ∧
                Resolution.found tier m = .ok resolution)) := by
  simp only [resolve] at h
  split at h
  · cases h
  rename_i call hcall
  refine ⟨call, hcall, ?_⟩
  split at h
  · cases h
    exact .inl rfl
  split at h
  · cases h
  · rename_i hlogging
    cases h
    exact .inr (.inl ⟨rfl, hlogging⟩)
  simp only [resolveSegments] at h
  split at h
  · cases h
    exact .inl rfl
  rename_i hsegments
  have hsegments : Call.segments call ≠ [] := by simpa using hsegments
  split at h
  · cases h
  · rename_i hfound
    exact .inr (.inr ⟨hsegments, .inr ⟨_, _, _, hfound, h⟩⟩)
  split at h
  · cases h
  · rename_i hcategory
    cases h
    exact .inr (.inr ⟨hsegments, .inl ⟨_, hcategory, rfl⟩⟩)
  split at h
  · cases h
  · rename_i hfound
    exact .inr (.inr ⟨hsegments, .inr ⟨_, _, _, hfound, h⟩⟩)
  · cases h
    exact .inl rfl

/-- A call that is resolved to a method was found by the look-up of some tiers. -/
theorem Conventions.exists_found_of_resolve {conventions : Conventions} {index : Index}
    {raw : Datum} {context : Context} {target : Method} {signature : String} {tier : Tier}
    (h : conventions.resolve index raw context = .ok (.method target signature tier)) :
    ∃ call tiers found m, raw.callText = .ok call ∧ Call.segments call ≠ [] ∧
      index.firstFound call (Call.segments call) context tiers = .ok (some (found, m)) ∧
        Resolution.found found m = .ok (.method target signature tier) := by
  obtain ⟨call, hcall, hr | ⟨hr, -⟩ | ⟨hsegments, ⟨_, -, hr⟩ | ⟨tiers, found, m, hfirst, hfound⟩⟩⟩ :=
    resolve_cases h
  · cases hr
  · cases hr
  · cases hr
  · exact ⟨call, tiers, found, m, hcall, hsegments, hfirst, hfound⟩

/-- A method that a call is resolved to is a method of the index. -/
theorem Conventions.mem_methodList_of_resolve {conventions : Conventions} {index : Index}
    {raw : Datum} {context : Context} {target : Method} {signature : String} {tier : Tier}
    (h : conventions.resolve index raw context = .ok (.method target signature tier)) :
    target ∈ index.methodList := by
  obtain ⟨_, _, _, m, -, -, hfirst, hfound⟩ := exists_found_of_resolve h
  obtain ⟨rfl, -, -⟩ := Resolution.of_found hfound
  exact Index.mem_methodList_of_firstFound hfirst

/-- The signature of a resolution is that of its method. -/
theorem Conventions.signature_of_resolve {conventions : Conventions} {index : Index}
    {raw : Datum} {context : Context} {target : Method} {signature : String} {tier : Tier}
    (h : conventions.resolve index raw context = .ok (.method target signature tier)) :
    target.signature = .ok signature := by
  obtain ⟨_, _, _, m, -, -, -, hfound⟩ := exists_found_of_resolve h
  obtain ⟨rfl, -, hsignature⟩ := Resolution.of_found hfound
  exact hsignature

end EntryFlow

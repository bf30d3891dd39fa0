import MockAudit.Target

/-!
# Watch lists

The methods a tracer watches, grouped by target. Each target and each method is listed once, in
the order in which it was first added; an allocator is watched through the constructor it runs.
-/

namespace MockAudit

/-- Watched targets with their watched methods. -/
abbrev WatchList := List (Target × List String)

namespace WatchList

/-- Adds one method. -/
def add (key : MethodRef) : WatchList → WatchList
  | [] => [(key.1, [key.2])]
  | (target, methods) :: rest =>
    if target = key.1 then
      (target, if key.2 ∈ methods then methods else methods ++ [key.2]) :: rest
    else (target, methods) :: add key rest

/-- Adds methods of a target. -/
def watch (list : WatchList) (target : Target) (methods : List String) : WatchList :=
  methods.foldl (fun list method => list.add (MethodRef.normalize (target, method))) list

/-- The watched methods in order. -/
def keys (list : WatchList) : List MethodRef :=
  list.flatMap fun (target, methods) => methods.map (target, ·)

/-- The number of watched methods. -/
def count (list : WatchList) : Nat :=
  list.keys.length

end WatchList

end MockAudit

import TypeCatalog.Proofs.Catalog.Run

/-!
# Calls that fail

**Calls.** Everything that can be asked to fill a catalog and may be refused: registering an entity or
an enumeration, setting the members or bases of a record, and loading bytes with a loader of a table,
which may also be missing there.

**Rule.** A call that opens several slots, or changes a record and opens slots after that, has made
all its tests before the first change. The registration of a document works on a catalog of its own,
which takes the place of the given one only at the end.

**Results.**
* `Loader.eq_of_load_error`: a load that fails leaves the catalog alone, whatever the bytes are.
* `Call.perform_of_error`: so does every call.
-/

namespace TypeCatalog

/-- What can be asked of a catalog and may be refused. -/
inductive Call where
  | register (e : Entity)
  | registerEnum (header : TypeHeader) (members : List Member)
  | setMembers (record : String) (members : List Member)
  | setMembersIn (record scope : String) (members : List Member)
  | setBases (record : String) (bases : List Base)
  | load (table : LoaderTable) (loader : String) (bytes : List UInt8)

/-- Why a call is refused. -/
inductive CallError where
  | catalog (e : CatalogError)
  | loader (e : LoaderError)
deriving DecidableEq

/-- What a call gives. -/
inductive CallResult where
  /-- The slot of what was registered. -/
  | slot (i : Nat)
  | done
  | metadata (bag : Metadata)

section Outcomes

variable {α ε : Type}

/-- A step on a catalog, told in the terms of calls. -/
def Call.report
    (result : α → CallResult) (error : ε → CallError) (step : Except ε α × Catalog) :
    Except CallError CallResult × Catalog :=
  ((step.1.map result).mapError error, step.2)

/-- A call fails only where the step below it does. -/
theorem Call.report_of_error
    {result : α → CallResult} {error : ε → CallError} {step : Except ε α × Catalog}
    {c : Catalog} {err : CallError}
    (hstep : ∀ e, step.1 = .error e → step.2 = c)
    (h : (report result error step).1 = .error err) :
    (report result error step).2 = c := by
  obtain ⟨outcome, c'⟩ := step
  cases outcome with
  | ok a =>
      cases h
  | error e =>
      exact hstep e rfl

end Outcomes

/-- The outcome of a call, and the catalog after it. -/
def Call.perform
    (c : Catalog) :
    Call → Except CallError CallResult × Catalog
  | register e => report .slot .catalog (c.register e)
  | registerEnum header members => report .slot .catalog (c.registerEnum header members)
  | setMembers record members => report (fun _ => .done) .catalog (c.setMembers record members)
  | setMembersIn record scope members =>
      report (fun _ => .done) .catalog (c.setMembersIn record scope members)
  | setBases record bases => report (fun _ => .done) .catalog (c.setBases record bases)
  | load table loader bytes => report .metadata .loader (table.load loader c bytes)

namespace Catalog

variable {c : Catalog}

theorem eq_of_register_error
    {e : Entity} {err : CatalogError}
    (h : (c.register e).1 = .error err) :
    (c.register e).2 = c := by
  have hstep : (Step.register e).apply c = (.error err, (c.register e).2) := by
    simp [Step.apply, h, Except.map]
  exact Step.eq_of_error hstep

theorem eq_of_setMembersIn_error
    {record scope : String} {members : List Member} {err : CatalogError}
    (h : (c.setMembersIn record scope members).1 = .error err) :
    (c.setMembersIn record scope members).2 = c :=
  Step.eq_of_error (s := .setMembersIn record scope members) (Prod.ext h rfl)

theorem eq_of_setBases_error
    {record : String} {bases : List Base} {err : CatalogError}
    (h : (c.setBases record bases).1 = .error err) :
    (c.setBases record bases).2 = c :=
  Step.eq_of_error (s := .setBases record bases) (Prod.ext h rfl)

/-- An image is put into the catalog only after it has been read and checked as a whole. -/
theorem eq_of_loadImage_error
    {bytes : List UInt8} {err : Image.LoadError}
    (h : (Image.load c bytes).1 = .error err) :
    (Image.load c bytes).2 = c := by
  unfold Image.load at h ⊢
  split
  · rfl
  · next envelope rest hread =>
      rw [hread] at h
      cases hcheck : envelope.mismatch? with
      | some m =>
          rfl
      | none =>
          simp [hcheck] at h

theorem eq_of_registerDocument_error
    {d : Document} {n : Template.Normalizer} {o : RegistrationOptions} {err : DocumentError}
    (h : (c.registerDocument d n o).1 = .error err) :
    (c.registerDocument d n o).2 = c := by
  unfold registerDocument at h ⊢
  dsimp only at h ⊢
  split
  · next state hrun =>
      simp [hrun] at h
  · rfl

end Catalog

namespace Loader

variable {c : Catalog}

/-- A load that fails leaves the catalog alone, whatever the bytes are. -/
theorem eq_of_load_error
    {l : Loader} {bytes : List UInt8} {err : LoaderError}
    (h : (l.load c bytes).1 = .error err) :
    (l.load c bytes).2 = c := by
  cases l with
  | image =>
      unfold load at h ⊢
      cases hload : Image.load c bytes with
      | mk outcome c' =>
          cases outcome with
          | ok bag =>
              simp [hload] at h
          | error e =>
              have herror : (Image.load c bytes).1 = .error e := by
                rw [hload]
              simpa [hload] using Catalog.eq_of_loadImage_error herror
  | document n o =>
      unfold load at h ⊢
      cases hread : Document.read bytes with
      | error e =>
          rfl
      | ok d =>
          cases hreg : c.registerDocument d n o with
          | mk outcome c' =>
              cases outcome with
              | ok stats =>
                  simp [hread, hreg] at h
              | error e =>
                  have herror : (c.registerDocument d n o).1 = .error e := by
                    rw [hreg]
                  simpa [hreg] using Catalog.eq_of_registerDocument_error herror

end Loader

theorem LoaderTable.eq_of_load_error
    {table : LoaderTable} {loader : String} {c : Catalog} {bytes : List UInt8} {err : LoaderError}
    (h : (table.load loader c bytes).1 = .error err) :
    (table.load loader c bytes).2 = c := by
  unfold LoaderTable.load at h ⊢
  cases hfound : table[loader]? with
  | none =>
      rfl
  | some l =>
      rw [hfound] at h
      exact Loader.eq_of_load_error h

/-- A call that fails changes nothing: the catalog has the slots that it had, in their order, with
their keys and entities, and the index that it had. -/
theorem Call.perform_of_error
    (call : Call) (c : Catalog) (err : CallError)
    (h : (call.perform c).1 = .error err) :
    (call.perform c).2 = c := by
  cases call with
  | register e =>
      exact report_of_error (fun _ => Catalog.eq_of_register_error) h
  | registerEnum header members =>
      exact report_of_error
        (fun _ => Catalog.eq_of_register_error (e := .ofType ⟨header, .enumeration members⟩)) h
  | setMembers record members =>
      exact report_of_error (fun _ => Catalog.eq_of_setMembersIn_error) h
  | setMembersIn record scope members =>
      exact report_of_error (fun _ => Catalog.eq_of_setMembersIn_error) h
  | setBases record bases =>
      exact report_of_error (fun _ => Catalog.eq_of_setBases_error) h
  | load table loader bytes =>
      exact report_of_error (fun _ => LoaderTable.eq_of_load_error) h

/-- A catalog with a union `U` and an enumerator `U::y`. -/
def occupiedUnion :
    Catalog :=
  ((Catalog.empty.register (.ofType (.union "U" "" 0))).2.register
    (.ofMember ((Member.enumerator "y" 1).inScope "U"))).2

/-- Members `x` and `y`, of which the second meets a name that is taken. -/
def collidingMembers :
    Call :=
  .setMembers "U" [.declare "x" (.named "int") .int .pub 0, .declare "y" (.named "int") .int .pub 0]

theorem perform_collidingMembers :
    (collidingMembers.perform occupiedUnion).1 = .error (.catalog (.duplicate "U::y")) ∧
      (collidingMembers.perform occupiedUnion).2 = occupiedUnion := by
  have herror : (collidingMembers.perform occupiedUnion).1 =
      .error (.catalog (.duplicate "U::y")) := by
    rfl
  exact ⟨herror, collidingMembers.perform_of_error occupiedUnion _ herror⟩

end TypeCatalog

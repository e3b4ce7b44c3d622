import OpenEmarsys.Contacts.Write

/-! `ListsService`, as far as it changes lists and memberships, and `GdprService.forget`.

What a foreign key with `ON DELETE CASCADE` does is written out after the statement
that triggers it.
-/

set_option autoImplicit false

namespace OpenEmarsys.Contacts

open Javascript Postgres

/-- Throws 404 unless the list is in the tenant. -/
def assertList (id : String) : CoreScript Unit := do
  let rows ← if isUuid id then sql (.select (Row.isList fun list => list.id == uuidOf id)) else pure []
  if rows.isEmpty then throw (.notFound "list not found")

/-- `ListsService.get`, of which nothing but the check matters here. -/
def getList (id : String) : CoreScript Unit := transaction .read (assertList id)

/-- `INSERT INTO list_members … ON CONFLICT DO NOTHING`, with its foreign keys. -/
def insertMembers (listId : Uuid) (contacts : List Uuid) : CoreScript (List Row) := do
  let rows ← sql (.insert (contacts.map fun contact => .member ⟨listId, contact⟩) true)
  let lists ← sql (.shareKey (Row.isList fun list => list.id == listId && !rows.isEmpty))
  if lists.isEmpty && !rows.isEmpty then throw .foreignKey
  checkForeignKey ((rows.filterMap Row.member?).map ListMember.contactId)
  pure rows

structure ChangeResult where
  changed : Nat
  not_found : List String

/-- `ListsService.change`: adds live contacts to a list, or removes them. -/
def change (core : Core) (listId : String) (contactIds : List String) (add : Bool) :
    CoreScript ChangeResult :=
  transaction (.change listId contactIds) do
    assertList listId
    let ids := (contactIds.filter isUuid).map uuidOf
    let found ← sql (.select (Row.isContact fun contact => contact.deletedAt.isNone &&
      ids.contains contact.id))
    let live := (found.filterMap Row.contact?).map Contact.id
    let rows ← if add then insertMembers (uuidOf listId) live
      else sql (.delete (Row.isMember fun member => member.listId == uuidOf listId &&
        live.contains member.contactId))
    let changed := (rows.filterMap Row.member?).map ListMember.contactId
    upserted core (changed.map fun contact => (contact, []))
    pure ⟨rows.length, contactIds.filter fun id => !(live.map uuidText).contains (core.toLowerCase id)⟩

def addContacts (core : Core) (listId : String) (contactIds : List String) : CoreScript ChangeResult :=
  change core listId contactIds true

def removeContacts (core : Core) (listId : String) (contactIds : List String) : CoreScript ChangeResult :=
  change core listId contactIds false

/-- A key that matched no contact, at its position in the request. -/
structure KeyError where
  index : Nat
  key : String

structure KeysResult where
  changed : Nat
  errors : List KeyError

def byKeys (core : Core) (process : Nat) (listId keyId : String) (values : List String) (add : Bool) :
    CoreScript KeysResult := do
  getList listId
  let found ← resolve core process keyId values
  let errors := (values.zipIdx.filter fun (key, _) => (found.lookup key).isNone).map
    fun (key, index) => ⟨index, key⟩
  let result ← change core listId ((found.map fun (_, id) => uuidText id).dedup) add
  pure ⟨result.changed, errors⟩

def addByKeys (core : Core) (process : Nat) (listId keyId : String) (values : List String) :
    CoreScript KeysResult :=
  byKeys core process listId keyId values true

def removeByKeys (core : Core) (process : Nat) (listId keyId : String) (values : List String) :
    CoreScript KeysResult :=
  byKeys core process listId keyId values false

/-- `ListsService.remove`: deletes the list and its memberships; the members' `lists` changed, so they
get an event. -/
def removeList (core : Core) (id : String) : CoreScript Unit :=
  transaction (.removeList id) do
    assertList id
    let rows ← sql (.select (Row.isMember fun member => member.listId == uuidOf id))
    let gone ← sql (.delete (Row.isList fun list => list.id == uuidOf id))
    if !gone.isEmpty then
      -- ON DELETE CASCADE
      let _ ← sql (.delete (Row.isMember fun member => member.listId == uuidOf id))
    upserted core ((rows.filterMap Row.member?).map fun member => (member.contactId, []))

/-- Erasure: physically deletes the contact and everything keyed by it. -/
def forget (core : Core) (contactId : Uuid) : CoreScript Unit :=
  transaction (.forget contactId) do
    let _ ← sql (.delete (Row.isUniqueValue fun value => value.contactId == contactId))
    let _ ← sql (.delete (Row.isMember fun member => member.contactId == contactId))
    let rows ← sql (.delete (Row.isContact fun contact => contact.id == contactId))
    if !rows.isEmpty then
      -- ON DELETE CASCADE
      let _ ← sql (.delete (Row.isUniqueValue fun value => value.contactId == contactId))
      let _ ← sql (.delete (Row.isMember fun member => member.contactId == contactId))
      deleted core [contactId] "gdpr"
    let _ ← sql (.update (Row.isConsent fun consent => consent.contactId == contactId && consent.text.isSome)
      (Row.mapConsent fun consent => { consent with text := none }))

end OpenEmarsys.Contacts

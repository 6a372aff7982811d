import Attire.Symbols
import Attire.Value.Basic

namespace Attire

/-! Imported modules. -/

structure Module where
  id : ModuleId
  url : String
  privileged : Bool
  checksum : String
  symbols : SymbolTable
  exports : ExportTable
  main : Option ClassId
  classes : List ClassId
  fabrics : List Value
  copyright : List String
  license : String
deriving Inhabited

structure ModuleRegistry where
  modules : Array Module := #[]
  byUrl : Table String ModuleId := ∅
deriving Inhabited

namespace ModuleRegistry

def size (registry : ModuleRegistry) : Nat := registry.modules.size

def nextId (registry : ModuleRegistry) : ModuleId := ⟨registry.size⟩

def get? (registry : ModuleRegistry) (id : ModuleId) : Option Module :=
  registry.modules[id.index]?

def find? (registry : ModuleRegistry) (url : String) : Option ModuleId := registry.byUrl.get? url

def getByUrl? (registry : ModuleRegistry) (url : String) : Option Module :=
  (registry.find? url).bind registry.get?

/-- Enters a module under the next free number. -/
def register (registry : ModuleRegistry) (module : Module) : ModuleId × ModuleRegistry :=
  let id := registry.nextId
  (id, {
    modules := registry.modules.push { module with id }
    byUrl := registry.byUrl.insert module.url id })

def fabric? (registry : ModuleRegistry) (id : FabricId) : Option Value :=
  (registry.get? id.module).bind fun module => module.fabrics[id.index]?

/-- What a module exports under a name. -/
def export? (registry : ModuleRegistry) (id : ModuleId) (name : String) : Option Target :=
  (registry.get? id).bind fun module => module.exports.get? name

end ModuleRegistry

end Attire

/-! # Settings of a check

The **markers** that decide which attributes ask for something, the **sigil** in front of a handler
name, and the **annotation** that binds a declaration to the markup. -/

namespace FxmlWiring

/-- The markers of one check. Any text is allowed, the empty one too: it occurs everywhere. -/
structure Settings where
  /-- Marks an attribute that names a field. -/
  idMarker : String := "fx:id"
  /-- Marks an attribute that names an event handler. -/
  actionMarker : String := "onAction"
  /-- Stands in front of a handler name that is declared in the controller. -/
  sigil : String := "#"
  /-- Binds a declaration of the controller to the markup. -/
  binding : String := "@FXML"
deriving Repr, DecidableEq

/-- The settings of FXML markup and its controllers. -/
def Settings.standard : Settings := {}

end FxmlWiring

import BoardNets.Catalog.Draft

/-! A ready-made catalog with SPI, GPIO, generic I2C and clock families and a handful of parts. The
clock pins are compatible while their types are not, so wiring them takes two single assignments of
equal width or an adapter. -/
namespace BoardNets
namespace Lab

open Draft (Entry)

def spiPin (reference : String) (sharing : Sharing) : List Entry := [
  .interfacePin "SPI Master" reference .digital sharing,
  .interfacePin "SPI Slave" reference .digital sharing,
  .compatiblePins "SPI Master" reference "SPI Slave" reference]

def spi : List Entry := [
  .family "SPI" "SPI",
  .interfaceType "SPI Master" "SPI" (some "SPI"),
  .requesting "SPI Master",
  .interfaceType "SPI Slave" "SPI" (some "SPI"),
  .compatibleTypes "SPI Master" "SPI Slave"] ++
  spiPin "SCK" .shared ++ spiPin "MOSI" .shared ++ spiPin "MISO" .shared ++ spiPin "CS" .exclusive

def gpio : List Entry := [
  .family "GPIO" "GPIO",
  .interfaceType "GPIO Output" "GPIO" (some "GPIO"),
  .requesting "GPIO Output",
  .interfaceType "LED Drive" "GPIO" (some "GPIO"),
  .compatibleTypes "GPIO Output" "LED Drive",
  .interfacePin "GPIO Output" "OUT" .digital .exclusive,
  .interfacePin "LED Drive" "IN" .digital .exclusive,
  .compatiblePins "GPIO Output" "OUT" "LED Drive" "IN"]

def i2cPin (reference : String) : List Entry := [
  .interfacePin "I2C" reference .digital .shared,
  .interfacePin "I2C Master" reference .digital .shared,
  .interfacePin "I2C Slave" reference .digital .shared,
  .childPin "I2C" reference "I2C Master" reference,
  .childPin "I2C" reference "I2C Slave" reference,
  .compatiblePins "I2C Master" reference "I2C Slave" reference]

def i2c : List Entry := [
  .family "I2C" "I2C",
  .interfaceType "I2C" "I2C" (some "I2C"),
  .interfaceType "I2C Master" "I2C" (some "I2C"),
  .requesting "I2C Master",
  .interfaceType "I2C Slave" "I2C" (some "I2C"),
  .childType "I2C" "I2C Master",
  .childType "I2C" "I2C Slave",
  .compatibleTypes "I2C Master" "I2C Slave"] ++ i2cPin "SDA" ++ i2cPin "SCL"

def clock : List Entry := [
  .family "CLK" "CLK",
  .interfaceType "Clock Out" "CLK" (some "CLK"),
  .requesting "Clock Out",
  .interfaceType "Clock In" "CLK" (some "CLK"),
  .interfacePin "Clock Out" "CLK" .digital .exclusive,
  .interfacePin "Clock In" "CKIN" .digital .exclusive,
  .compatiblePins "Clock Out" "CLK" "Clock In" "CKIN"]

/-- A connectivity with its pins, given as name, number and type. -/
def part (name : String) (pins : List (String × String × PinType)) : List Entry :=
  .connectivity name :: pins.map fun (pin, number, type) => .pin name pin number type

def supply (name : String) (pins : List String) : List Entry :=
  pins.flatMap fun pin => [.voltageReference name pin "VDD", .groundReference name pin "GND"]

def controllers : List Entry :=
  part "MCU" [("VDD", "1", .power), ("GND", "2", .gnd), ("PA4", "4", .digital),
    ("PA5", "5", .digital), ("PA6", "6", .digital), ("PA7", "7", .digital),
    ("PB6", "16", .digital), ("PB7", "17", .digital)] ++
  supply "MCU" ["PA4", "PA5", "PA6", "PA7", "PB6", "PB7"] ++ [
  .interface "MCU" "SPI1" "SPI Master"
    [("SCK", ["PA5"]), ("MOSI", ["PA7"]), ("MISO", ["PA6"]), ("CS", ["PA4"])],
  .interface "MCU" "I2C1" "I2C Master" [("SDA", ["PB7"]), ("SCL", ["PB6"])]] ++
  part "FLASH" [("CS", "1", .digital), ("SO", "2", .digital), ("GND", "4", .gnd),
    ("SI", "5", .digital), ("SCK", "6", .digital), ("VCC", "8", .power)] ++ [
  .interface "FLASH" "SPI" "SPI Slave"
    [("SCK", ["SCK"]), ("MOSI", ["SI"]), ("MISO", ["SO"]), ("CS", ["CS"])]]

def devices : List Entry :=
  part "NODE_A" [("A3", "3", .digital)] ++
  [.interface "NODE_A" "CLK" "SPI Master" [("SCK", ["A3"])]] ++
  part "NODE_B" [("B7", "7", .digital)] ++
  [.interface "NODE_B" "CLK" "SPI Master" [("SCK", ["B7"])]] ++
  part "DRIVER" [("VDD", "1", .power), ("GND", "2", .gnd), ("A", "3", .digital)] ++
  supply "DRIVER" ["A"] ++
  [.interface "DRIVER" "OUT" "GPIO Output" [("OUT", ["A"])]] ++
  part "LED" [("ANODE", "1", .digital), ("CATHODE", "2", .digital)] ++
  [.interface "LED" "IN" "LED Drive" [("IN", ["ANODE"])]] ++
  part "SENSOR" [("SDA", "1", .digital), ("SCL", "2", .digital), ("VDD", "3", .power),
    ("GND", "4", .gnd)] ++
  [.interface "SENSOR" "I2C1" "I2C" [("SDA", ["SDA"]), ("SCL", ["SCL"])]] ++
  part "OSC" [("OUT", "1", .digital)] ++
  [.interface "OSC" "CLKOUT" "Clock Out" [("CLK", ["OUT"])]] ++
  part "PLL" [("REF", "1", .digital), ("REFN", "2", .digital)] ++ [
  .interface "PLL" "CKIN" "Clock In" [("CKIN", ["REF"])],
  .interface "PLL" "CKDIFF" "Clock In" [("CKIN", ["REF", "REFN"])]] ++
  part "TAP" [("CK", "1", .digital)] ++
  [.interface "TAP" "SPI" "SPI Slave" [("SCK", ["CK"])]]

def passives : List Entry :=
  part "RES" [("1", "1", .generic), ("2", "2", .generic)] ++
  part "CAP" [("1", "1", .generic), ("2", "2", .generic)] ++
  part "CONN" [("1", "1", .generic), ("2", "2", .generic), ("3", "3", .generic),
    ("4", "4", .generic)]

def draft : Draft := .ofEntries (spi ++ gpio ++ i2c ++ clock ++ controllers ++ devices ++ passives)

def catalog : Except CatalogError Catalog := draft.build

end Lab
end BoardNets

import CivilTime.Locale.Table

/-!
# Standard locales

The names of English, German, French and Spanish.
-/
namespace CivilTime.Locale.Standard

def english : Names where
  months := #v["January", "February", "March", "April", "May", "June", "July", "August",
    "September", "October", "November", "December"]
  shortMonths := #v["Jan", "Feb", "Mar", "Apr", "May", "Jun", "Jul", "Aug", "Sep",
    "Oct", "Nov", "Dec"]
  weekdays := #v["Monday", "Tuesday", "Wednesday", "Thursday", "Friday", "Saturday", "Sunday"]
  shortWeekdays := #v["Mon", "Tue", "Wed", "Thu", "Fri", "Sat", "Sun"]
  am := "AM"
  pm := "PM"
  beforeCommonEra := "BC"
  commonEra := "AD"
  zoneNames :=
    [("Coordinated Universal Time", "UTC"),
     ("Greenwich Mean Time", "GMT"),
     ("Eastern Standard Time", "America/New_York"),
     ("Central Standard Time", "America/Chicago"),
     ("Mountain Standard Time", "America/Denver"),
     ("Pacific Standard Time", "America/Los_Angeles"),
     ("Central European Time", "Europe/Paris"),
     ("Australian Eastern Standard Time", "Australia/Sydney")]

def german : Names where
  months := #v["Januar", "Februar", "März", "April", "Mai", "Juni", "Juli", "August", "September",
    "Oktober", "November", "Dezember"]
  shortMonths := #v["Jan.", "Feb.", "März", "Apr.", "Mai", "Juni", "Juli", "Aug.", "Sept.", "Okt.",
    "Nov.", "Dez."]
  weekdays := #v["Montag", "Dienstag", "Mittwoch", "Donnerstag", "Freitag", "Samstag", "Sonntag"]
  shortWeekdays := #v["Mo.", "Di.", "Mi.", "Do.", "Fr.", "Sa.", "So."]
  am := "AM"
  pm := "PM"
  beforeCommonEra := "v. Chr."
  commonEra := "n. Chr."
  zoneNames :=
    [("Koordinierte Weltzeit", "UTC"),
     ("Mittlere Greenwich-Zeit", "GMT"),
     ("Mitteleuropäische Normalzeit", "Europe/Berlin"),
     ("Mitteleuropäische Zeit", "Europe/Berlin")]

def french : Names where
  months := #v["janvier", "février", "mars", "avril", "mai", "juin", "juillet", "août",
    "septembre", "octobre", "novembre", "décembre"]
  shortMonths := #v["janv.", "févr.", "mars", "avr.", "mai", "juin", "juil.", "août", "sept.",
    "oct.", "nov.", "déc."]
  weekdays := #v["lundi", "mardi", "mercredi", "jeudi", "vendredi", "samedi", "dimanche"]
  shortWeekdays := #v["lun.", "mar.", "mer.", "jeu.", "ven.", "sam.", "dim."]
  am := "AM"
  pm := "PM"
  beforeCommonEra := "av. J.-C."
  commonEra := "ap. J.-C."
  zoneNames :=
    [("temps universel coordonné", "UTC"),
     ("heure moyenne de Greenwich", "GMT"),
     ("heure normale d'Europe centrale", "Europe/Paris"),
     ("heure d'Europe centrale", "Europe/Paris")]

def spanish : Names where
  months := #v["enero", "febrero", "marzo", "abril", "mayo", "junio", "julio", "agosto",
    "septiembre", "octubre", "noviembre", "diciembre"]
  shortMonths := #v["ene", "feb", "mar", "abr", "may", "jun", "jul", "ago", "sept",
    "oct", "nov", "dic"]
  weekdays := #v["lunes", "martes", "miércoles", "jueves", "viernes", "sábado", "domingo"]
  shortWeekdays := #v["lun", "mar", "mié", "jue", "vie", "sáb", "dom"]
  am := "a. m."
  pm := "p. m."
  beforeCommonEra := "a. C."
  commonEra := "d. C."
  zoneNames :=
    [("tiempo universal coordinado", "UTC"),
     ("hora del meridiano de Greenwich", "GMT"),
     ("hora estándar de Europa central", "Europe/Madrid"),
     ("hora de Europa central", "Europe/Madrid")]

/-- The standard locales by language. -/
def all : List (String × Names) :=
  [("en", english), ("de", german), ("fr", french), ("es", spanish)]

/-- The English table that reads no zone identifiers. -/
def englishTable : Table := ⟨"en", english, []⟩

end CivilTime.Locale.Standard
